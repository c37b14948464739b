import Kar.Rpc.Turns

/-!
# The order of an actor's requests

`acceptSession` starts the goroutines of the requests one after the other, so the numbers of
the goroutines are the order of arrival.  The queued requests of an actor are entered in that
order, also when the instance of the actor is removed and made again in between.

`Recorded` ties the place of a goroutine to what is recorded of its request: its handler was
called, or it was passed over.  `Aged` compares goroutines by their numbers: on one instance
the later one waits on the later channel, and the goroutines of a removed instance are older
than those of its successor.  From both follows what holds when a handler is called
(`Settled`): the older requests are settled, and the younger ones are not entered.
-/

namespace Kar.Rpc

open Kar.Lib List Function

namespace Place

/-- The handler has been neither called nor given up. -/
def pending : Place → Bool
  | waiting | arrived | awaiting | resumed | acquired => true
  | _ => false

/-- The request has timed out. -/
def givenUp : Place → Bool
  | timedOut | relaying => true
  | _ => false

end Place

namespace Scheduler

/-- The request of `t` was passed over. -/
def omits (s : Scheduler) (t : Nat) : Bool := s.omitted.any (·.1 == t)

/-- Where `endTask` leads. -/
def endPlace (s : Scheduler) (t : Nat) : Place :=
  if (s.threads t).after = none then .ended else .releasing

theorem settled_endPlace (s : Scheduler) (t : Nat) :
    (s.endPlace t).pending = false ∧ (s.endPlace t).givenUp = false := by
  unfold endPlace
  split
  · exact ⟨rfl, rfl⟩
  · exact ⟨rfl, rfl⟩

/-! ## What is recorded of a request -/

structure Recorded (s : Scheduler) : Prop where
  lt : ∀ t, t ∈ s.entered ∨ s.omits t = true → t < s.numThreads
  pending : ∀ t, (s.threads t).place.pending = true → t ∉ s.entered ∧ s.omits t = false
  exclusive : ∀ t, t ∈ s.entered → s.omits t = false
  settled : ∀ t, t < s.numThreads → (s.threads t).job ≠ .deactivation →
    (s.threads t).place.pending = false → t ∈ s.entered ∨ s.omits t = true
  givenUp : ∀ t, (s.threads t).place.givenUp = true → s.omits t = true

variable {i t : Nat} {m : Request} {target : Session}

namespace Recorded

variable {s s' : Scheduler}

theorem init : Recorded init := by
  constructor <;> simp [Scheduler.init, omits, Place.pending, Place.givenUp]

/-- Only the goroutines and the records matter. -/
theorem of_eq (h : Recorded s) (hthreads : s'.threads = s.threads := by rfl)
    (hnum : s'.numThreads = s.numThreads := by rfl) (hentered : s'.entered = s.entered := by rfl)
    (homitted : s'.omitted = s.omitted := by rfl) : Recorded s' := by
  have homits : s'.omits = s.omits := by
    funext t
    rw [omits, omits, homitted]
  constructor <;> simp [hthreads, hnum, hentered, homits]
  · exact h.lt
  · exact h.pending
  · exact h.exclusive
  · exact h.settled
  · exact h.givenUp

/-- A goroutine moves, and nothing is recorded. -/
theorem goto (h : Recorded s) (hpending : p.pending = true → (s.threads t).place.pending = true)
    (hsettled : p.pending = false →
      (s.threads t).place.pending = false ∨ (s.threads t).job = .deactivation)
    (hgivenUp : p.givenUp = true → (s.threads t).place.givenUp = true) : Recorded (s.goto t p) where
  lt := h.lt
  pending := by
    intro u hu
    rw [goto_place] at hu
    split at hu
    · subst u
      exact h.pending t (hpending hu)
    · exact h.pending u hu
  exclusive := h.exclusive
  settled := by
    intro u hlt hjob hu
    rw [goto_place] at hu
    rw [goto_job] at hjob
    split at hu
    · subst u
      exact h.settled t hlt hjob ((hsettled hu).resolve_right hjob)
    · exact h.settled u hlt hjob hu
  givenUp := by
    intro u hu
    rw [goto_place] at hu
    split at hu
    · subst u
      exact h.givenUp t (hgivenUp hu)
    · exact h.givenUp u hu

/-- A goroutine moves to a place where its request is settled if it was before. -/
theorem moved (h : Recorded s) {p₀ : Place} (hplace : (s.threads t).place = p₀)
    (hpending : p.pending = p₀.pending := by rfl)
    (hgivenUp : p.givenUp = true → p₀.givenUp = true := by simp [Place.givenUp])
    (hthreads : s'.threads = (s.goto t p).threads := by rfl)
    (hnum : s'.numThreads = s.numThreads := by rfl) (hentered : s'.entered = s.entered := by rfl)
    (homitted : s'.omitted = s.omitted := by rfl) : Recorded s' := by
  subst hplace
  have hgoto : Recorded (s.goto t p) := by
    refine h.goto ?_ ?_ hgivenUp
    · rw [hpending]
      exact id
    · rw [hpending]
      exact .inl
  exact hgoto.of_eq hthreads hnum hentered homitted

theorem omits_passOver :
    (s.passOver t o).omits u = (s.omits u || t == u) := by
  simp [omits, passOver]

/-- A request is passed over. -/
theorem passOver (h : Recorded s) {o : Omission} (hlt : t < s.numThreads)
    (hpending : (s.threads t).place.pending = true) (hp : p.pending = false) :
    Recorded ((s.passOver t o).goto t p) := by
  have homits : ∀ u, ((s.passOver t o).goto t p).omits u = (s.omits u || t == u) :=
    fun u => omits_passOver
  have hentered : ((s.passOver t o).goto t p).entered = s.entered := rfl
  constructor
  · intro u hu
    rw [homits, hentered] at hu
    by_cases htu : t = u
    · exact htu ▸ hlt
    · exact h.lt u (by simpa [htu] using hu)
  · intro u hu
    rw [goto_place] at hu
    split at hu
    · simp [hp] at hu
    · rename_i hut
      rw [homits, hentered]
      simpa [Ne.symm hut] using h.pending u hu
  · intro u hu
    have hne : t ≠ u := by
      rintro rfl
      exact (h.pending t hpending).1 hu
    rw [homits]
    simpa [hne] using h.exclusive u hu
  · intro u hlt hjob hu
    rw [homits, hentered]
    rw [goto_place] at hu
    rw [goto_job] at hjob
    by_cases hut : u = t
    · exact .inr (by simp [hut])
    · rw [if_neg hut] at hu
      simpa [Ne.symm hut] using h.settled u hlt hjob hu
  · intro u hu
    rw [homits]
    rw [goto_place] at hu
    by_cases hut : u = t
    · simp [hut]
    · rw [if_neg hut] at hu
      simp [h.givenUp u hu]

/-- A handler is called. -/
theorem entering (h : Recorded s) (hlt : t < s.numThreads)
    (hpending : (s.threads t).place.pending = true) (hp : p.pending = false)
    (hgivenUp : p.givenUp = false) : Recorded ((s.entering t).goto t p) := by
  have hmem : ∀ u, u ∈ ((s.entering t).goto t p).entered ↔ u ∈ s.entered ∨ u = t := by
    intro u
    show u ∈ s.entered ++ [t] ↔ _
    simp
  constructor
  · intro u hu
    rw [hmem] at hu
    rcases hu with (hu | rfl) | hu
    · exact h.lt u (.inl hu)
    · exact hlt
    · exact h.lt u (.inr hu)
  · intro u hu
    rw [goto_place] at hu
    split at hu
    · simp [hp] at hu
    rename_i hut
    rw [hmem]
    refine ⟨?_, (h.pending u hu).2⟩
    rintro (hmem | heq)
    · exact (h.pending u hu).1 hmem
    · exact hut heq
  · intro u hu
    rw [hmem] at hu
    rcases hu with hu | rfl
    · exact h.exclusive u hu
    · exact (h.pending u hpending).2
  · intro u hlt hjob hu
    rw [hmem]
    rw [goto_place] at hu
    rw [goto_job] at hjob
    by_cases hut : u = t
    · exact .inl (.inr hut)
    · rw [if_neg hut] at hu
      exact (h.settled u hlt hjob hu).imp .inl id
  · intro u hu
    rw [goto_place] at hu
    split at hu
    · simp [hgivenUp] at hu
    · exact h.givenUp u hu

/-- A goroutine starts. -/
theorem spawn (h : Recorded s) {u : Thread} (hpending : u.place.pending = true)
    (hgivenUp : u.place.givenUp = false) : Recorded (s.spawn u) := by
  have hnew : s.numThreads ∉ s.entered ∧ s.omits s.numThreads = false := by
    refine ⟨fun hmem => Nat.lt_irrefl _ (h.lt _ (.inl hmem)), ?_⟩
    cases homits : s.omits s.numThreads with
    | false => rfl
    | true => exact absurd (h.lt _ (.inr homits)) (Nat.lt_irrefl _)
  constructor
  · exact fun t ht => Nat.lt_succ_of_lt (h.lt t ht)
  · intro t ht
    rw [spawn_threads] at ht
    split at ht
    · subst t
      exact hnew
    · exact h.pending t ht
  · exact h.exclusive
  · intro t hlt hjob ht
    have hlt : t < s.numThreads + 1 := hlt
    rw [spawn_threads] at hjob ht
    split at ht
    · simp [hpending] at ht
    · rename_i hne
      rw [if_neg hne] at hjob
      exact h.settled t (by omega) hjob ht
  · intro t ht
    rw [spawn_threads] at ht
    split at ht
    · simp [hgivenUp] at ht
    · exact h.givenUp t ht

theorem enqueue (h : Recorded s) {job : Job} : Recorded (s.enqueue i job) := by
  have hset : Recorded (s.setInstance i { s.instances i with next := (s.instances i).next + 1 }) :=
    h.of_eq
  exact hset.spawn rfl rfl

theorem arrival (h : Recorded s) {fresh : Bool} (hs : Arrival s i fresh target m s') : Recorded s' := by
  cases hs with
  | resume =>
    have hlocks : Recorded { s with
        deferredLocks := s.deferredLocks.delete target.deferredLockID } :=
      h.of_eq
    exact hlocks.spawn rfl rfl
  | reentrant => exact h.spawn rfl rfl
  | nonexclusive => exact h.spawn rfl rfl
  | queued => exact h.enqueue

theorem outcome {cfg : SchedulerConfig} {e : SchedulerEvent} (h : Recorded s) (hwf : Wf s)
    (ho : Outcome cfg s e s') : Recorded s' := by
  cases ho with
  | expired => exact h.of_eq
  | accepted => exact h.of_eq
  | scheduled hs =>
    have hunloaded : Recorded s.unloaded := h.of_eq
    obtain ⟨l, -, ⟨i, -, -, ha⟩ | ⟨-, ha⟩⟩ := hwf.schedule_cases hs
    · exact hunloaded.arrival ha
    · have hnew : Recorded (s.unloaded.newInstance l.target l.m) := h.of_eq
      exact hnew.arrival ha
  | received _ _ hplace =>
    rcases hplace with ⟨hplace, rfl⟩ | ⟨hplace, rfl⟩
    · exact h.moved (p := .arrived) hplace
    · exact h.moved (p := .relaying) hplace
  | @timedOut t _ _ _ _ hplace =>
    have hlt := hwf.lt hplace
    exact (h.passOver (o := .busy) hlt (hplace ▸ rfl) rfl).of_eq
  | awaits _ hplace => exact h.moved (p := .awaiting) hplace
  | childDone hplace => exact h.moved (p := .resumed) hplace
  | goesOn _ hplace =>
    rcases hplace with hplace | ⟨hplace, -⟩
    · exact h.moved (p := .acquired) hplace
    · exact h.moved (p := .acquired) hplace
  | acquired _ hplace =>
    rcases hplace with hplace | ⟨hplace, -⟩
    · exact h.moved (p := .acquired) hplace
    · exact h.moved (p := .acquired) hplace
  | @omitted t _ _ _ _ clear o _ hplace =>
    have hlt := hwf.lt hplace
    have hpassed := h.passOver (o := o) hlt (hplace ▸ rfl) (s.settled_endPlace t).1
    cases clear <;> exact hpassed.of_eq
  | @mismatched t _ _ _ _ clear _ hplace =>
    have hlt := hwf.lt hplace
    have hentered := h.entering hlt (hplace ▸ rfl) (s.settled_endPlace t).1
      (s.settled_endPlace t).2
    cases clear <;> exact hentered.of_eq
  | @entered t _ _ _ _ _ _ _ hplace =>
    have hlt := hwf.lt hplace
    exact (h.entering hlt (hplace ▸ rfl) rfl rfl).of_eq
  | @answered t _ _ _ _ _ _ clear _ hplace =>
    cases clear <;> exact h.moved (p := s.endPlace t) hplace (s.settled_endPlace t).1
      (by simp [(s.settled_endPlace t).2])
  | @forwarded t _ _ _ _ _ _ clear _ _ _ hplace =>
    cases clear <;> exact h.moved (p := s.endPlace t) hplace (s.settled_endPlace t).1
      (by simp [(s.settled_endPlace t).2])
  | deferred _ hplace =>
    refine h.moved (p := .ended) hplace rfl (by decide) ?_ ?_ ?_ ?_ <;>
      simp [Scheduler.goto, continuing, deferring, log]
  | released _ _ hplace => exact h.moved (p := .ended) hplace
  | @relayed t =>
    refine h.moved (t := t) (p := .ended) rfl ?_
    cases hplace : (s.threads t).place <;> simp_all [Place.sends, Place.pending]
  | collected => exact h.enqueue
  | @claimed t _ hjob =>
    have hgoto : Recorded (s.goto t .claimed) :=
      h.goto (by simp [Place.pending]) (fun _ => .inr hjob) (by simp [Place.givenUp])
    exact hgoto.of_eq
  | probed _ hplace => exact h.moved (p := .probed _) hplace
  | began hplace hp =>
    rcases hp with ⟨rfl, -⟩ | rfl
    · exact h.moved (p := .callback) hplace
    · exact h.moved (p := .settling) hplace
  | calledBack hplace => exact h.moved (p := .settling) hplace
  | retired hplace => exact h.moved (p := .removing) hplace
  | aborted hplace => exact h.moved (p := .aborting) hplace
  | removed hplace => exact h.moved (p := .closing) hplace
  | closed hplace => exact h.moved (p := .ended) hplace

end Recorded

/-! ## Older and younger goroutines -/

structure Aged (s : Scheduler) : Prop where
  tickets : ∀ t u c d, (s.threads t).before = some c → (s.threads u).before = some d →
    c.owner = d.owner → t < u → c.num < d.num
  ages : ∀ t u, t < s.numThreads → u < s.numThreads →
    (s.instances (s.threads t).inst).valid = true →
    (s.instances (s.threads u).inst).valid = false →
    (s.instances (s.threads t).inst).key = (s.instances (s.threads u).inst).key → u < t
  /-- An instance that is not valid is being removed, or its last channel is closed. -/
  stale : ∀ i, i < s.numInstances → (s.instances i).valid = false →
    (∃ t, (s.threads t).inst = i ∧
      ((s.threads t).place = .removing ∨ (s.threads t).place = .closing)) ∨
    ∃ c, s.closed c = true ∧ c.owner = i

namespace Aged

variable {s s' : Scheduler}

theorem init : Aged init := by
  constructor <;> simp [Scheduler.init]

/-- Neither instances nor goroutines come or go, except that a removal may come to its end. -/
theorem frame (h : Aged s) (hbefore : ∀ t, (s'.threads t).before = (s.threads t).before)
    (hinst : ∀ t, (s'.threads t).inst = (s.threads t).inst)
    (hkey : ∀ i, (s'.instances i).key = (s.instances i).key)
    (hvalid : ∀ i, (s'.instances i).valid = (s.instances i).valid)
    (hthreads : s'.numThreads = s.numThreads) (hinstances : s'.numInstances = s.numInstances)
    (hclosed : ∀ c, s.closed c = true → s'.closed c = true)
    (hremoved : ∀ t, (s.threads t).place = .removing ∨ (s.threads t).place = .closing → ((s'.threads
      t).place = .removing ∨ (s'.threads t).place = .closing) ∨ ∃ c, s'.closed c = true ∧ c.owner =
      (s.threads t).inst) : Aged s' where
  tickets := by
    simp only [hbefore]
    exact h.tickets
  ages := by
    simp only [hthreads, hinst, hvalid, hkey]
    exact h.ages
  stale := by
    intro i hi hinvalid
    rw [hinstances] at hi
    rw [hvalid] at hinvalid
    rcases h.stale i hi hinvalid with ⟨t, ht, hplace⟩ | ⟨c, hc, howner⟩
    · rcases hremoved t hplace with hplace | ⟨c, hc, howner⟩
      · exact .inl ⟨t, (hinst t).trans ht, hplace⟩
      · exact .inr ⟨c, hc, howner.trans ht⟩
    · exact .inr ⟨c, hclosed c hc, howner⟩

theorem of_eq (h : Aged s) (hthreads : s'.threads = s.threads)
    (hnum : s'.numThreads = s.numThreads) (hinstances : s'.instances = s.instances)
    (hnum' : s'.numInstances = s.numInstances) (hclosed : s'.closed = s.closed) : Aged s' :=
  h.frame (fun t => by rw [hthreads]) (fun t => by rw [hthreads]) (fun i => by rw [hinstances])
    (fun i => by rw [hinstances]) hnum hnum' (fun c hc => by rw [hclosed]; exact hc)
    (fun t ht => by rw [hthreads]; exact .inl ht)

/-- The instances may change in what is neither key nor validity. -/
theorem setInstance (h : Aged s) {a : SessionInstance}
    (hkey : a.key = (s.instances i).key) (hvalid : a.valid = (s.instances i).valid) :
    Aged (s.setInstance i a) := by
  have hupdate : ∀ j, (s.setInstance i a).instances j = if j = i then a else s.instances j :=
    fun j => update_apply ..
  refine h.frame (fun _ => rfl) (fun _ => rfl) (fun j => ?_) (fun j => ?_) rfl rfl
    (fun _ hc => hc) fun _ ht => .inl ht
  · rw [hupdate]
    split
    · rw [‹j = i›, hkey]
    · rfl
  · rw [hupdate]
    split
    · rw [‹j = i›, hvalid]
    · rfl

theorem silent (h : Aged s) (hs : Silent s s') : Aged s' :=
  h.frame (fun t => by rw [hs.threads]) (fun t => by rw [hs.threads]) hs.key hs.valid
    hs.numThreads hs.numInstances (fun c hc => by rw [hs.closed]; exact hc)
    (fun t ht => by rw [hs.threads]; exact .inl ht)

/-- A goroutine moves that does not remove its instance. -/
theorem goto (h : Aged s) (ht : (s.threads t).place ≠ .removing ∧ (s.threads t).place ≠ .closing) :
    Aged (s.goto t p) := by
  refine h.frame (goto_before s t p) (goto_inst s t p) (fun _ => rfl) (fun _ => rfl) rfl rfl
    (fun _ hc => hc) fun u hu => .inl ?_
  have hut : u ≠ t := by
    rintro rfl
    exact hu.elim ht.1 ht.2
  rw [goto_place_of_ne s t p hut]
  exact hu

theorem spawn (h : Aged s) (hwf : Wf s) {u : Thread} (hvalid : (s.instances u.inst).valid = true)
    (hticket : ∀ d, u.before = some d → ∀ t c, (s.threads t).before = some c →
      c.owner = d.owner → c.num < d.num) : Aged (s.spawn u) where
  tickets := by
    intro t v c d hc hd howner htv
    rw [spawn_threads] at hc hd
    have ht : t ≠ s.numThreads := by
      rintro rfl
      rw [if_neg (by omega), (hwf.fresh v (by omega)).1] at hd
      simp at hd
    rw [if_neg ht] at hc
    split at hd
    · exact hticket d hd t c hc howner
    · exact h.tickets t v c d hc hd howner htv
  ages := by
    intro t v ht hv htvalid hvvalid hkey
    have ht : t < s.numThreads + 1 := ht
    have hv : v < s.numThreads + 1 := hv
    rw [spawn_threads] at htvalid hvvalid hkey
    have hvne : v ≠ s.numThreads := by
      rintro rfl
      rw [if_pos rfl] at hvvalid
      exact absurd (hvvalid.symm.trans hvalid) (by simp)
    by_cases htne : t = s.numThreads
    · omega
    · rw [spawn_threads, if_neg hvne, if_neg htne] at hkey
      rw [if_neg htne] at htvalid
      rw [if_neg hvne] at hvvalid
      exact h.ages t v (by omega) (by omega) htvalid hvvalid hkey
  stale := by
    intro i hi hinvalid
    rcases h.stale i hi hinvalid with ⟨t, ht, hplace⟩ | hclosed
    · have hlt : t < s.numThreads :=
        hwf.lt_of_place (by rcases hplace with hplace | hplace <;> simp [hplace])
      refine .inl ⟨t, ?_⟩
      rw [spawn_threads, if_neg (by omega)]
      exact ⟨ht, hplace⟩
    · exact .inr hclosed

theorem newInstance (h : Aged s) (hwf : Wf s) (target : Session) (m : Request) :
    Aged (s.newInstance target m) where
  tickets := h.tickets
  ages := by
    intro t u ht hu
    have hold : ∀ i, i < s.numInstances → (s.newInstance target m).instances i = s.instances i :=
      fun i hi => update_of_ne (Nat.ne_of_lt hi) _ _
    show ((s.newInstance target m).instances (s.threads t).inst).valid = true → ((s.newInstance
      target m).instances (s.threads u).inst).valid = false → ((s.newInstance target m).instances
      (s.threads t).inst).key = ((s.newInstance target m).instances (s.threads u).inst).key → u < t
    rw [hold _ (hwf.inst t ht), hold _ (hwf.inst u hu)]
    exact h.ages t u ht hu
  stale := by
    intro i hi hinvalid
    have hi : i < s.numInstances + 1 := hi
    by_cases hnew : i = s.numInstances
    · simp [Scheduler.newInstance, hnew] at hinvalid
    · exact h.stale i (by omega) (by simpa [Scheduler.newInstance, hnew] using hinvalid)

theorem retired (h : Aged s) (hwf : Wf s) {t : Nat} (hplace : (s.threads t).place = .settling)
    (hlast : s.last t = true) : Aged (s.retired t) := by
  have hvalid := (last_iff.mp hlast).1
  have hthreads : ∀ u, (s.retired t).threads u = (s.goto t .removing).threads u := fun _ => rfl
  have hkey : ∀ i, ((s.retired t).instances i).key = (s.instances i).key := by
    intro i
    rw [retired_instances]
    split <;> rfl
  constructor
  · intro u v
    rw [hthreads, hthreads, goto_before, goto_before]
    exact h.tickets u v
  · intro u v hu hv huvalid hvvalid huv
    rw [hthreads, goto_inst, retired_instances] at huvalid hvvalid
    rw [hthreads, hthreads, goto_inst, goto_inst, hkey, hkey] at huv
    split at huvalid
    · simp at huvalid
    rename_i hne
    split at hvvalid
    · -- The instance that was retired was the only valid one of its actor.
      rename_i heq
      have hentry := hwf.tabled _ huvalid
      rw [huv, heq, hwf.tabled _ hvalid] at hentry
      exact absurd (Option.some.inj hentry).symm hne
    · exact h.ages u v hu hv huvalid hvvalid huv
  · intro i hi hinvalid
    by_cases hit : i = (s.threads t).inst
    · refine .inl ⟨t, ?_⟩
      rw [hthreads, goto_inst, goto_place_self]
      exact ⟨hit.symm, .inl rfl⟩
    rw [retired_instances, if_neg hit] at hinvalid
    rcases h.stale i hi hinvalid with ⟨u, hu, hremoving⟩ | hclosed
    · have hut : u ≠ t := by
        rintro rfl
        simp [hplace] at hremoving
      refine .inl ⟨u, ?_⟩
      rw [hthreads, goto_inst, goto_place_of_ne s t _ hut]
      exact ⟨hu, hremoving⟩
    · exact .inr hclosed

theorem enqueue (h : Aged s) (hwf : Wf s) {job : Job} (hvalid : (s.instances i).valid = true)
    (hticket : ∀ t c, (s.threads t).before = some c → c.owner = i →
      c.num < (s.instances i).next) : Aged (s.enqueue i job) := by
  have hset : Aged (s.setInstance i { s.instances i with next := (s.instances i).next + 1 }) :=
    h.setInstance rfl rfl
  have hwf' : Wf (s.setInstance i { s.instances i with next := (s.instances i).next + 1 }) :=
    hwf.setInstance rfl rfl fun t ht hi => hi ▸ (hwf.locked t ht).2
  refine hset.spawn hwf' ?_ fun d hd t c hc howner => ?_
  · simp [Scheduler.setInstance, hvalid]
  · rw [← Option.some.inj hd] at howner ⊢
    exact hticket t c hc howner

theorem arrival (h : Aged s) (hwf : Wf s) {fresh : Bool} (hs : Arrival s i fresh target m s')
    (hvalid : (s.instances i).valid = true)
    (hticket : ∀ t c, (s.threads t).before = some c → c.owner = i →
      c.num < (s.instances i).next) : Aged s' := by
  cases hs with
  | resume =>
    have hlocks : Aged { s with
        deferredLocks := s.deferredLocks.delete target.deferredLockID } :=
      h.of_eq rfl rfl rfl rfl rfl
    have hwf' : Wf { s with
        deferredLocks := s.deferredLocks.delete target.deferredLockID } := by
      refine { hwf with parked := fun id c hget => hwf.parked id c ?_ }
      rw [GoMap.get?_delete] at hget
      split at hget
      · simp at hget
      exact hget
    exact hlocks.spawn hwf' hvalid (by simp)
  | reentrant => exact h.spawn hwf hvalid (by simp)
  | nonexclusive => exact h.spawn hwf hvalid (by simp)
  | queued => exact h.enqueue hwf hvalid hticket

/-- The goroutines that wait on channels of an instance came before its last channel. -/
theorem ticket_lt {D : Prop} (h : Sound D s) {c : Chan}
    (hc : (s.threads t).before = some c) : c.num < (s.instances c.owner).next := by
  obtain ⟨front, holder, hinv⟩ := h.chain
  exact hinv.num_lt_next hc

theorem schedule {D : Prop} (h : Aged s) (hsound : Sound D s) (hs : s.schedule = some s') :
    Aged s' := by
  have hwf := hsound.toWf
  have hunloaded : Aged s.unloaded := h.of_eq rfl rfl rfl rfl rfl
  obtain ⟨l, -, ⟨i, hentry, hvalid, ha⟩ | ⟨hnone, ha⟩⟩ := hwf.schedule_cases hs
  · exact hunloaded.arrival hwf.unloaded ha hvalid fun t c hc howner => howner ▸ ticket_lt hsound hc
  refine (hunloaded.newInstance hwf.unloaded _ _).arrival (hwf.unloaded.newInstance rfl hnone) ha
    (by simp [Scheduler.newInstance, Scheduler.unloaded]) fun t c hc howner => ?_
  -- Nobody waits for the turn of the new instance yet.
  have hlt : c.owner < s.numInstances := hwf.after t ⟨c.owner, c.num + 1⟩ (hwf.before t c hc).2
  omega

theorem step {D : Prop} {cfg : SchedulerConfig} {e : SchedulerEvent} (h : Aged s)
    (hsound : Sound D s) (hs : Scheduler.step cfg s e = some s') : Aged s' := by
  have hwf := hsound.toWf
  cases step_change hs with
  | silent h' => exact h.silent h'
  | quiet hq => exact (h.goto hq.place.2).silent hq.silent
  | loads _ h' =>
    refine Aged.silent ?_ h'
    exact h.of_eq rfl rfl rfl rfl rfl
  | schedules hsch h' => exact (h.schedule hsound hsch).silent h'
  | @receives t c _ _ hfull hplace h' =>
    have hfull : Aged (s.setFull c false) := h.of_eq rfl rfl rfl rfl rfl
    refine (hfull.goto ?_).silent h'
    show (s.threads t).place ≠ .removing ∧ (s.threads t).place ≠ .closing
    rcases hplace with ⟨hplace, -⟩ | ⟨hplace, -⟩ <;> simp [hplace]
  | @passes t c _ _ h' =>
    have hfull : Aged (s.setFull c true) := h.of_eq rfl rfl rfl rfl rfl
    refine (hfull.goto ?_).silent h'
    show (s.threads t).place ≠ .removing ∧ (s.threads t).place ≠ .closing
    cases hplace : (s.threads t).place <;> simp_all [Place.sends]
  | @parks t _ _ _ _ next c _ _ hplace h' =>
    have hdeferring : Aged (s.deferring next.deferredLockID c) := h.of_eq rfl rfl rfl rfl rfl
    refine (hdeferring.goto ?_).silent h'
    show (s.threads t).place ≠ .removing ∧ (s.threads t).place ≠ .closing
    simp [hplace]
  | enqueues _ hvalid h' =>
    exact (h.enqueue hwf hvalid fun t c hc howner => howner ▸ ticket_lt hsound hc).silent h'
  | retires hplace hlast h' => exact (h.retired hwf hplace hlast).silent h'
  | @removes t _ h' =>
    refine Aged.silent ?_ h'
    refine h.frame (goto_before _ t _) (goto_inst _ t _) (fun _ => rfl) (fun _ => rfl) rfl rfl
      (fun _ hc => hc) fun u hu => .inl ?_
    rw [goto_place]
    split
    · exact .inr rfl
    · exact hu
  | @closes t c hplace hafter h' =>
    have hclosed : Aged ({ s with closed := update s.closed c true }.goto t .ended) := by
      refine h.frame (goto_before _ t _) (goto_inst _ t _) (fun _ => rfl) (fun _ => rfl) rfl rfl
        (fun d hd => ?_) fun u hu => ?_
      · show update s.closed c true d = true
        rw [update_apply]
        split
        · rfl
        · exact hd
      by_cases hut : u = t
      · -- The last channel of the instance is closed now.
        subst u
        obtain ⟨b, hb⟩ := Option.ne_none_iff_exists'.mp (hwf.deactivates t (hplace ▸ rfl))
        obtain ⟨hinst, hafter'⟩ := hwf.before t b hb
        refine .inr ⟨c, update_self .., ?_⟩
        rw [Option.some.inj (hafter.symm.trans hafter')]
        exact hinst
      · rw [goto_place_of_ne _ t _ hut]
        exact .inl hu
    refine Aged.silent ?_ h'
    exact hclosed.setInstance (i := (s.threads t).inst) rfl rfl

end Aged

/-! ## The order of the handlers -/

/-- The request of `t` was queued for the actor `k`. -/
def queuedFor (s : Scheduler) (k : SessionKey) (t : Nat) : Bool :=
  (s.threads t).before.isSome && (s.threads t).job != .deactivation &&
    (s.instances (s.threads t).inst).key == k

theorem queuedFor_iff {s : Scheduler} {k : SessionKey} : s.queuedFor k t = true ↔
    (s.threads t).before ≠ none ∧ (s.threads t).job ≠ .deactivation ∧
      (s.instances (s.threads t).inst).key = k := by
  simp [queuedFor, Option.isSome_iff_ne_none, and_assoc]

/-- The requests that were queued for `k`, in the order in which `acceptSession` accepted them. -/
def queue (s : Scheduler) (k : SessionKey) : List Nat :=
  (List.range s.numThreads).filter (s.queuedFor k)

/-- The queued requests for `k` whose handlers were called, in that order. -/
def handled (s : Scheduler) (k : SessionKey) : List Nat := s.entered.filter (s.queuedFor k)

section Settled

variable {s : Scheduler}

/-- An instance that has its turn is valid until the turn is with the goroutine that removes
it. -/
theorem valid_of_turn (hsound : Sound D s) (haged : Aged s) {p : Turn} (hp : s.HasTurn i p)
    (hne : ∀ t, p = .held t → (s.threads t).place ≠ .removing ∧ (s.threads t).place ≠ .closing) :
    (s.instances i).valid = true := by
  obtain ⟨front, holder, hinv⟩ := hsound.chain
  have hlt := hp.lt hsound.toWf
  obtain ⟨c, rfl, hat, -⟩ := hp.at
  cases hvalid : (s.instances c.owner).valid with
  | true => rfl
  | false =>
    rcases haged.stale _ hlt hvalid with ⟨u, hu, hremoving⟩ | ⟨d, hd, howner⟩
    · -- The goroutine that removes the instance has the turn.
      have hdeactivates : (s.threads u).place.deactivates = true ∧
          (s.threads u).place.phase = .holds := by
        rcases hremoving with hremoving | hremoving <;> rw [hremoving] <;> exact ⟨rfl, rfl⟩
      obtain ⟨b, hb⟩ := Option.ne_none_iff_exists'.mp (hsound.deactivates u hdeactivates.1)
      obtain ⟨hinst, hafter⟩ := hsound.before u b hb
      have hu : s.HasTurn c.owner (.held u) :=
        ⟨hdeactivates.2, ⟨b.owner, b.num + 1⟩, hafter, hinst.trans hu⟩
      obtain ⟨hremoving', hclosing⟩ := hne u (hsound.hasTurn_unique hp hu)
      exact (hremoving.elim hremoving' hclosing).elim
    · have hclosed : s.turns.closed d = false := hinv.not_closed_of_at hat howner
      exact absurd hd (by simpa [turns] using hclosed)

/-- The instance of a queued request that has the turn is valid. -/
theorem valid_of_holds (hsound : Sound D s) (haged : Aged s) {c : Chan}
    (hc : (s.threads t).before = some c) (hplace : (s.threads t).place.phase = .holds)
    (hne : (s.threads t).place ≠ .removing ∧ (s.threads t).place ≠ .closing) :
    (s.instances (s.threads t).inst).valid = true := by
  obtain ⟨hinst, hafter⟩ := hsound.before t c hc
  refine valid_of_turn hsound haged (p := .held t) ⟨hplace, _, hafter, hinst⟩ fun u hu => ?_
  rw [← Turn.held.inj hu]
  exact hne

/-- When a queued request is about to call its handler, the older ones for the actor are not
pending, and the younger ones have not called theirs. -/
theorem settled_of_acquired (hsound : Sound D s) (haged : Aged s) (hrecorded : Recorded s)
    {k : SessionKey} {u : Nat} (hplace : (s.threads t).place = .acquired)
    (ht : s.queuedFor k t = true) (hu : s.queuedFor k u = true) (hlt : u < s.numThreads) :
    (u < t → (s.threads u).place.pending = false) ∧ (u ∈ s.entered → u < t) := by
  obtain ⟨front, holder, hinv⟩ := hsound.chain
  obtain ⟨htb, -, htk⟩ := queuedFor_iff.mp ht
  obtain ⟨hub, -, huk⟩ := queuedFor_iff.mp hu
  obtain ⟨c, hc⟩ := Option.ne_none_iff_exists'.mp htb
  obtain ⟨d, hd⟩ := Option.ne_none_iff_exists'.mp hub
  obtain ⟨hcinst, hcafter⟩ := hsound.before t c hc
  obtain ⟨hdinst, hdafter⟩ := hsound.before u d hd
  have htlt : t < s.numThreads := hsound.lt hplace
  have hholds : (s.threads t).place.phase = .holds := by rw [hplace]; rfl
  have hvalid := valid_of_holds hsound haged hc hholds (by simp [hplace])
  have hfront : c.num + 1 = front c.owner := (hinv.turn _ _ (at_held hcafter hholds)).2
  have hphase : s.turns.phase u = (s.threads u).place.phase := phase_of_after (by simp [hdafter])
  by_cases hinst : (s.threads u).inst = (s.threads t).inst
  · have howner : d.owner = c.owner := by rw [hdinst, hcinst, hinst]
    refine ⟨fun hut => ?_, fun hmem => ?_⟩
    · -- The turn is past the channel of `u`, and `u` does not have it.
      have hnum := haged.tickets u t d c hd hc howner hut
      have hwaits : (s.threads u).place.phase ≠ .waits := by
        intro hwaits
        obtain ⟨d', hd', -, hle, -⟩ := hinv.waits u (hphase.trans hwaits)
        rw [Option.some.inj (hd'.symm.trans hd), howner] at hle
        omega
      have hholds' : (s.threads u).place.phase ≠ .holds := fun hup =>
        absurd (hsound.queued_unique hub htb hinst hup hholds) (Nat.ne_of_lt hut)
      cases hup : (s.threads u).place <;> simp_all [Place.phase, Place.pending]
    · -- A request that called its handler has received the turn.
      have hwaits : s.turns.phase u ≠ .waits := by
        rw [hphase]
        intro hwaits
        cases hup : (s.threads u).place with
        | waiting => exact (hrecorded.pending u (hup ▸ rfl)).1 hmem
        | timedOut =>
          have homits := hrecorded.givenUp u (hup ▸ rfl)
          simp [hrecorded.exclusive u hmem] at homits
        | _ => simp [hup, Place.phase] at hwaits
      have hpast := hinv.past u d hd hwaits
      rw [howner] at hpast
      have hneq : u ≠ t := by
        rintro rfl
        exact (hrecorded.pending u (hplace ▸ rfl)).1 hmem
      by_contra hle
      have hnum := haged.tickets t u c d hc hd howner.symm (by omega)
      omega
  · -- The instance of `u` has been removed before the one of `t` was made.
    have hinvalid : (s.instances (s.threads u).inst).valid = false := by
      cases hv : (s.instances (s.threads u).inst).valid with
      | false => rfl
      | true =>
        have hentry := hsound.tabled _ hv
        rw [huk, ← htk, hsound.tabled _ hvalid] at hentry
        exact absurd (Option.some.inj hentry).symm hinst
    refine ⟨fun _ => ?_, fun _ => haged.ages t u htlt hlt hvalid hinvalid (htk.trans huk.symm)⟩
    cases hpending : (s.threads u).place.pending with
    | false => rfl
    | true =>
      have hcases : (s.threads u).place.phase = .waits ∨ (s.threads u).place.phase = .holds ∧
          (s.threads u).place ≠ .removing ∧ (s.threads u).place ≠ .closing := by
        cases hup : (s.threads u).place <;> simp_all [Place.phase, Place.pending]
      rcases hcases with hwaits | ⟨hup, hremoving⟩
      · obtain ⟨d', hd', -, -, -, hopened⟩ := hinv.waits u (hphase.trans hwaits)
        have hopened : (s.instances d'.owner).valid = true := hopened
        rw [Option.some.inj (hd'.symm.trans hd), hdinst, hinvalid] at hopened
        simp at hopened
      · simp [valid_of_holds hsound haged hd hup hremoving] at hinvalid

end Settled

structure InOrder (s : Scheduler) : Prop where
  sorted : s.entered.Pairwise fun t u =>
    ∀ k, s.queuedFor k t = true → s.queuedFor k u = true → t < u
  complete : ∀ k t u, t ∈ s.entered → s.queuedFor k t = true → s.queuedFor k u = true → u < t →
    u ∈ s.entered ∨ s.omits u = true

namespace InOrder

variable {s s' : Scheduler}

theorem init : InOrder init := by
  constructor <;> simp [Scheduler.init]

/-- The records grow, and a handler is called only from the place `acquired`. -/
theorem records_of_outcome (hwf : Wf s) (ho : Outcome cfg s e s') :
    (s'.entered = s.entered ∨
      ∃ t, s'.entered = s.entered ++ [t] ∧ (s.threads t).place = .acquired) ∧
    ∀ t, s.omits t = true → s'.omits t = true := by
  cases ho with
  | scheduled hs =>
    obtain ⟨l, -, ⟨i, -, -, ha⟩ | ⟨-, ha⟩⟩ := hwf.schedule_cases hs <;> cases ha <;>
      exact ⟨.inl rfl, fun _ h => h⟩
  | @timedOut t _ _ _ =>
    refine ⟨.inl rfl, fun u hu => ?_⟩
    show (s.passOver t .busy).omits u = true
    simp [Recorded.omits_passOver, hu]
  | @omitted t _ _ _ _ clear o =>
    refine ⟨.inl (by cases clear <;> rfl), fun u hu => ?_⟩
    have homits : (((s.passOver t o).clearFlow (s.threads t).inst clear).endTask t).omits u =
        (s.passOver t o).omits u := by cases clear <;> rfl
    simp [homits, Recorded.omits_passOver, hu]
  | @mismatched t _ _ _ _ clear _ hplace =>
    exact ⟨.inr ⟨t, by cases clear <;> rfl, hplace⟩, by cases clear <;> exact fun _ h => h⟩
  | @entered t _ _ _ _ _ _ _ hplace => exact ⟨.inr ⟨t, rfl, hplace⟩, fun _ h => h⟩
  | @answered t _ _ _ _ _ _ clear =>
    exact ⟨.inl (by cases clear <;> rfl), by cases clear <;> exact fun _ h => h⟩
  | @forwarded t _ _ _ _ _ _ clear =>
    exact ⟨.inl (by cases clear <;> rfl), by cases clear <;> exact fun _ h => h⟩
  | deferred => simp [goto, continuing, deferring, log, omits]
  | _ => exact ⟨.inl rfl, fun _ h => h⟩

theorem queuedFor_of_kept (hwf : Wf s) (hkept : Kept s s') (ht : t < s.numThreads)
    (k : SessionKey) : s'.queuedFor k t = s.queuedFor k t := by
  rw [queuedFor, queuedFor, hkept.before t ht, hkept.job t ht, hkept.inst t ht,
    hkept.key _ (hwf.inst t ht)]

theorem step (h : InOrder s) (hsound : Sound D s) (haged : Aged s) (hrecorded : Recorded s)
    (hs : Scheduler.step cfg s e = some s') : InOrder s' := by
  have hkept := Kept.step hsound.toWf hs
  have hqueued := fun t ht => queuedFor_of_kept hsound.toWf hkept (t := t) ht
  obtain ⟨s₁, ho, hsame⟩ := step_outcome hs
  obtain ⟨hentered, homits⟩ := records_of_outcome hsound.toWf ho
  have homits : ∀ t, s.omits t = true → s'.omits t = true := by
    intro t ht
    rw [omits, hsame.omitted]
    exact homits t ht
  rw [← hsame.entered] at hentered
  have hlt : ∀ t, t ∈ s.entered → t < s.numThreads := fun t ht => hrecorded.lt t (.inl ht)
  have hsorted : s.entered.Pairwise fun t u =>
      ∀ k, s'.queuedFor k t = true → s'.queuedFor k u = true → t < u := by
    refine h.sorted.imp_of_mem fun {t u} ht hu hlt' k => ?_
    rw [hqueued t (hlt t ht), hqueued u (hlt u hu)]
    exact hlt' k
  have hcomplete : ∀ k t u, t ∈ s.entered → s'.queuedFor k t = true → s'.queuedFor k u = true →
      u < t → u ∈ s.entered ∨ s'.omits u = true := by
    intro k t u ht htk huk hut
    rw [hqueued t (hlt t ht)] at htk
    rw [hqueued u (hut.trans (hlt t ht))] at huk
    exact (h.complete k t u ht htk huk hut).imp id (homits u)
  rcases hentered with hentered | ⟨t, hentered, hplace⟩
  · refine ⟨?_, ?_⟩
    · rw [hentered]
      exact hsorted
    · rw [hentered]
      exact hcomplete
  have htlt : t < s.numThreads := hsound.lt hplace
  constructor
  · rw [hentered]
    refine pairwise_append.mpr ⟨hsorted, pairwise_singleton .., fun u hu v hv k huk hvk => ?_⟩
    rw [mem_singleton.mp hv] at hvk ⊢
    rw [hqueued u (hlt u hu)] at huk
    rw [hqueued t htlt] at hvk
    exact (settled_of_acquired hsound haged hrecorded hplace hvk huk (hlt u hu)).2 hu
  intro k v u hv hvk huk huv
  rw [hentered] at hv ⊢
  rw [mem_append]
  rcases mem_append.mp hv with hv | hv
  · exact (hcomplete k v u hv hvk huk huv).imp .inl id
  rw [mem_singleton.mp hv] at hvk huv
  have hult := huv.trans htlt
  rw [hqueued t htlt] at hvk
  rw [hqueued u hult] at huk
  have hpending := (settled_of_acquired hsound haged hrecorded hplace hvk huk hult).1 huv
  exact (hrecorded.settled u hult (queuedFor_iff.mp huk).2.1 hpending).imp .inl (homits u)

end InOrder

/-! ## Why a request is passed over -/

/-- The reason for an omission: the request was answered with the error of the busy timeout,
its method has no handler, or it is a call whose caller is gone. -/
def Explained (cfg : SchedulerConfig) (s : Scheduler) (m : Request) (target : Session) :
    Omission → Prop
  | .busy => cfg.busyTimeout = true ∧ ∃ x ∈ possibleDeadlock m target, x ∈ s.sent
  | .undefined => cfg.handlersSession m.method = none
  | .cancelled => cfg.cancellation = true ∧ m.caller?.isSome = true

def Justified (cfg : SchedulerConfig) (s : Scheduler) : Prop :=
  ∀ t o, (t, o) ∈ s.omitted → t < s.numThreads ∧ ∃ target m clear,
    (s.threads t).job = .request target m clear ∧ Explained cfg s m target o

namespace Justified

variable {s s' : Scheduler}

theorem init : Justified cfg init := by
  simp [Justified, Scheduler.init]

/-- A request for a session is answered. -/
theorem exists_possibleDeadlock
    (h : m.target.session? = some target) : ∃ x, x ∈ possibleDeadlock m target := by
  cases m with
  | call => exact ⟨_, by simp [possibleDeadlock, State.final]; rfl⟩
  | tell m =>
    cases htarget : m.target with
    | session => exact ⟨_, by simp [possibleDeadlock, State.final, htarget]; rfl⟩
    | service => simp [Request.target, htarget, Target.session?] at h
    | node => simp [Request.target, htarget, Target.session?] at h

theorem explained_mono {o : Omission}
    (h : Explained cfg s m target o) (hsent : ∀ x ∈ s.sent, x ∈ s'.sent) :
    Explained cfg s' m target o := by
  cases o with
  | busy =>
    obtain ⟨hbusy, x, hx, hmem⟩ := h
    exact ⟨hbusy, x, hx, hsent x hmem⟩
  | undefined => exact h
  | cancelled => exact h

/-- Messages that were sent remain, and an omission has a reason. -/
theorem omitted_of_outcome (hwf : Wf s) (htargets : Targets s) (ho : Outcome cfg s e s') :
    (∀ x ∈ s.sent, x ∈ s'.sent) ∧ (s'.omitted = s.omitted ∨ ∃ t o target m clear, s'.omitted =
      s.omitted ++ [(t, o)] ∧ t < s.numThreads ∧ (s.threads t).job = .request target m clear ∧
      Explained cfg s' m target o) := by
  cases ho with
  | scheduled hs =>
    obtain ⟨l, -, ⟨i, -, -, ha⟩ | ⟨-, ha⟩⟩ := hwf.schedule_cases hs <;> cases ha <;>
      exact ⟨fun _ h => h, .inl rfl⟩
  | @timedOut t target m clear hjob hplace hbusy =>
    have hlt : t < s.numThreads := hwf.lt hplace
    obtain ⟨x, hx⟩ := exists_possibleDeadlock (htargets.thread t target m clear hlt hjob)
    exact ⟨fun _ h => mem_append_left _ h, .inr ⟨t, .busy, target, m, clear, rfl, hlt, hjob,
      hbusy, x, hx, mem_append_right _ hx⟩⟩
  | @omitted t _ _ target m clear o hjob hplace homits =>
    have hlt : t < s.numThreads := hwf.lt hplace
    refine ⟨by cases clear <;> exact fun _ h => h,
      .inr ⟨t, o, target, m, clear, by cases clear <;> rfl, hlt, hjob, ?_⟩⟩
    cases o with
    | busy => exact homits.elim
    | undefined => exact homits
    | cancelled => exact ⟨homits.1, homits.2.1⟩
  | @mismatched t _ _ _ _ clear =>
    exact ⟨by cases clear <;> exact fun _ h => h, .inl (by cases clear <;> rfl)⟩
  | @answered t _ _ _ _ _ _ clear =>
    exact ⟨by cases clear <;> exact fun _ h => h, .inl (by cases clear <;> rfl)⟩
  | @forwarded t _ _ _ _ _ _ clear =>
    exact ⟨by cases clear <;> exact fun _ h => h, .inl (by cases clear <;> rfl)⟩
  | deferred => simp [goto, continuing, deferring, log]
  | _ => exact ⟨fun _ h => h, .inl rfl⟩

theorem step (h : Justified cfg s) (hwf : Wf s) (htargets : Targets s)
    (hs : Scheduler.step cfg s e = some s') : Justified cfg s' := by
  have hkept := Kept.step hwf hs
  obtain ⟨s₁, ho, hsame⟩ := step_outcome hs
  obtain ⟨hsent, hcases⟩ := omitted_of_outcome hwf htargets ho
  rw [← hsame.omitted] at hcases
  have hold : ∀ t o, (t, o) ∈ s.omitted → t < s'.numThreads ∧ ∃ target m clear,
      (s'.threads t).job = .request target m clear ∧ Explained cfg s' m target o := by
    intro t o hmem
    obtain ⟨hlt, target, m, clear, hjob, hexplained⟩ := h t o hmem
    exact ⟨Nat.lt_of_lt_of_le hlt hkept.numThreads, target, m, clear,
      (hkept.job t hlt).trans hjob, explained_mono hexplained fun x hx => hsame.sent x (hsent x hx)⟩
  intro t o hmem
  rcases hcases with hcases | ⟨t', o', target, m, clear, hcases, hlt, hjob, hexplained⟩
  · exact hold t o (hcases ▸ hmem)
  rw [hcases] at hmem
  rcases mem_append.mp hmem with hmem | hmem
  · exact hold t o hmem
  · obtain ⟨rfl, rfl⟩ := Prod.mk.inj (mem_singleton.mp hmem)
    exact ⟨Nat.lt_of_lt_of_le hlt hkept.numThreads, target, m, clear,
      (hkept.job t hlt).trans hjob, explained_mono hexplained hsame.sent⟩

end Justified

/-! ## The queue is served in order -/

/-- All that holds of a state of every run. -/
structure Ordered (cfg : SchedulerConfig) (s : Scheduler) : Prop extends Sound False s where
  aged : Aged s
  recorded : Recorded s
  inOrder : InOrder s
  targets : Targets s
  justified : Justified cfg s

theorem Ordered.of_reachable {cfg : SchedulerConfig} {s : Scheduler}
    (h : Reachable (Scheduler.step cfg) (fun _ _ => True) init s) : Ordered cfg s := by
  refine h.invariant ⟨.init, .init, .init, .init, .init, .init⟩ fun s e s' _ hinv _ hs => ?_
  have hsound := hinv.toSound
  obtain ⟨s₁, ho, hsame⟩ := step_outcome hs
  exact {
    toSound := hsound.step (fun hf => hf.elim) hs
    aged := hinv.aged.step hsound hs
    recorded := (hinv.recorded.outcome hsound.toWf ho).of_eq hsame.threads hsame.numThreads
      hsame.entered hsame.omitted
    inOrder := hinv.inOrder.step hsound hinv.aged hinv.recorded hs
    targets := hinv.targets.step hsound.toWf hs
    justified := hinv.justified.step hsound.toWf hinv.targets hs }

end Scheduler

end Kar.Rpc
