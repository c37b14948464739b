import Kar.Lib.Run
import Mathlib.Data.List.Basic

/-!
# Subscriptions to topics

`subscriber` and `subscribe` of `core/pkg/rpc/topics.go`.

The first part is `ConsumeClaim` over the sessions of a consumer group on one partition of a topic.
Each event is transformed and told to an actor, and its offset is marked.  A mark is a high-water mark:
it covers every offset below it.  An event that could not be told is not marked, but the next one that
is told is, and a failed transformation does not stop the tell.  `Careful` excludes these steps.

The second part is the loop of `subscribe`, which opens one session after the other, and the channel on
which the caller waits for the first of them.
-/

namespace Kar.Rpc

open Kar.Lib List

/-! ## The messages of a claim -/

/-- A session on the partition: the offset of the next message and the offset up to which messages are
marked.  `failed` records that an event was transformed but not told. -/
structure ClaimSession where
  position : Nat
  marked : Option Nat
  failed : Bool
  deriving DecidableEq, Repr

/-- The partition, the offset that the group has committed, and the session.  `start` records where the
first session began, and `told` records the offsets and the messages that were told, where `none` is an
empty message. -/
structure Subscription (α τ : Type) where
  log : List α
  committed : Option Nat
  session : Option ClaimSession
  start : Option Nat
  told : List (Nat × Option τ)

/-- What can happen, with the outcome of `Tell`. -/
inductive SubscriptionEvent (α : Type) where
  | publish (value : α)
  | join
  | message (tellErr : Option String)
  | commit
  | leave

/-- `MarkMessage`: a high-water mark. -/
def markMessage (marked : Option Nat) (offset : Nat) : Option Nat :=
  some (max (marked.getD 0) (offset + 1))

variable {α τ : Type} (transform : α → Except String τ) (oldest : Bool)

namespace Subscription

def init : Subscription α τ := ⟨[], none, none, none, []⟩

/-- Where a session begins: at the committed offset, or else as the configuration says. -/
def initial (s : Subscription α τ) : Nat := s.committed.getD (if oldest then 0 else s.log.length)

/-- The body of the loop of `ConsumeClaim`. -/
def consume (s : Subscription α τ) (c : ClaimSession) (value : α) (tellErr : Option String) :
    Subscription α τ :=
  -- A failed transformation is logged, and nothing is told as its result.
  let transformed := (transform value).toOption
  match tellErr with
  | some _ =>
    { s with session := some { c with
        position := c.position + 1, failed := c.failed || transformed.isSome } }
  | none =>
    { s with
      told := s.told ++ [(c.position, transformed)]
      session := some { c with
        position := c.position + 1, marked := markMessage c.marked c.position } }

def step (s : Subscription α τ) : SubscriptionEvent α → Option (Subscription α τ)
  | .publish value => some { s with log := s.log ++ [value] }
  | .join =>
    match s.session with
    | some _ => none
    | none => some { s with
        session := some ⟨s.initial oldest, none, false⟩, start := s.start.or (some (s.initial oldest)) }
  | .message tellErr =>
    s.session.bind fun c => s.log[c.position]?.map fun value => s.consume transform c value tellErr
  | .commit => s.session.map fun c => { s with committed := c.marked.or s.committed }
  | .leave => s.session.map fun _ => { s with session := none }

end Subscription

/-- The steps that lose no event: an event is told if it was transformed and no tell has failed in the
session, and a session begins where the first one did if nothing has been committed. -/
def Careful (s : Subscription α τ) : SubscriptionEvent α → Prop
  | .message none => ∀ c value, s.session = some c → s.log[c.position]? = some value →
    (∃ t, transform value = .ok t) ∧ c.failed = false
  | .join => s.committed = none → ∀ f, s.start = some f → s.initial oldest = f
  | _ => True

/-- The events from the start of the subscription up to an offset are told if they are transformed. -/
structure Covers (s : Subscription α τ) (n : Nat) : Prop where
  le_length : n ≤ s.log.length
  told : ∀ f, s.start = some f → ∀ i, f ≤ i → i < n → ∀ value t, s.log[i]? = some value →
    transform value = .ok t → (i, some t) ∈ s.told

/-- What is told is the transformation of an event. -/
def ToldEvents (s : Subscription α τ) : Prop :=
  ∀ i m, (i, m) ∈ s.told → ∃ value t, s.log[i]? = some value ∧ transform value = .ok t ∧ m = some t

/-- The invariant of careful steps. -/
structure Delivering (s : Subscription α τ) : Prop where
  told : ToldEvents transform s
  committed : ∀ n, s.committed = some n → Covers transform s n
  marked : ∀ c n, s.session = some c → c.marked = some n → Covers transform s n
  position : ∀ c, s.session = some c → c.position ≤ s.log.length
  reached : ∀ c, s.session = some c → c.failed = false → Covers transform s c.position

variable {transform oldest}

theorem getElem?_of_append {r : List α} (h : l' = l ++ r) {i : Nat} {value : α}
    (hi : i < l.length) (hvalue : l'[i]? = some value) : l[i]? = some value := by
  rwa [h, getElem?_append_left hi] at hvalue

namespace Covers

variable {s s' : Subscription α τ} {n m : Nat}

/-- More events and more tells do not matter. -/
theorem of_grows (h : Covers transform s n) (hstart : s'.start = s.start) {r : List α}
    (hlog : s'.log = s.log ++ r) (htold : s.told ⊆ s'.told) : Covers transform s' n := by
  refine ⟨?_, ?_⟩
  · have hle := h.le_length
    rw [hlog, length_append]
    omega
  · intro f hf i hfi hi value t hvalue ht
    have hvalue' := getElem?_of_append hlog (Nat.lt_of_lt_of_le hi h.le_length) hvalue
    exact htold (h.told f (hstart ▸ hf) i hfi hi value t hvalue' ht)

theorem of_told (h : Covers transform s n) (hstart : s'.start = s.start) (hlog : s'.log = s.log)
    (htold : s.told ⊆ s'.told) : Covers transform s' n :=
  h.of_grows hstart (by rw [hlog, append_nil]) htold

/-- Before the start there is nothing to tell. -/
theorem of_le_start (hn : n ≤ s.log.length) (hstart : ∀ f, s.start = some f → n ≤ f) :
    Covers transform s n := by
  refine ⟨hn, fun f hf i hfi hi => ?_⟩
  have hnf := hstart f hf
  omega

theorem sup (hn : Covers transform s n) (hm : Covers transform s m) : Covers transform s (max n m) := by
  cases Nat.le_total n m with
  | inl hle => rwa [Nat.max_eq_right hle]
  | inr hle => rwa [Nat.max_eq_left hle]

theorem zero (s : Subscription α τ) : Covers transform s 0 :=
  of_le_start (Nat.zero_le _) fun _ _ => Nat.zero_le _

/-- The next event is covered too if it is told or cannot be transformed. -/
theorem succ (h : Covers transform s n) (hvalue : s.log[n]? = some value)
    (hnext : ∀ t, transform value = .ok t → (n, some t) ∈ s.told) : Covers transform s (n + 1) := by
  refine ⟨(List.getElem?_eq_some_iff.mp hvalue).1, fun f hf i hfi hi value' t hvalue' ht => ?_⟩
  cases Nat.lt_succ_iff_lt_or_eq.mp hi with
  | inl hlt => exact h.told f hf i hfi hlt value' t hvalue' ht
  | inr heq =>
    rw [heq, hvalue, Option.some.injEq] at hvalue'
    rw [heq]
    exact hnext t (hvalue' ▸ ht)

end Covers

namespace Delivering

variable {s s' : Subscription α τ}

theorem init : Delivering transform (Subscription.init : Subscription α τ) := by
  refine ⟨?_, ?_, ?_, ?_, ?_⟩ <;> simp [ToldEvents, Subscription.init]

theorem publish (h : Delivering transform s) (value : α) :
    Delivering transform { s with log := s.log ++ [value] } := by
  refine ⟨?_, fun n hn => (h.committed n hn).of_grows rfl rfl (List.Subset.refl _),
    fun c n hc hn => (h.marked c n hc hn).of_grows rfl rfl (List.Subset.refl _), fun c hc => ?_,
    fun c hc hfailed => (h.reached c hc hfailed).of_grows rfl rfl (List.Subset.refl _)⟩
  · intro i m hm
    obtain ⟨value', t, hvalue, ht, rfl⟩ := h.told i m hm
    have hi := (List.getElem?_eq_some_iff.mp hvalue).1
    exact ⟨value', t, by rwa [List.getElem?_append_left hi], ht, rfl⟩
  · have hle := h.position c hc
    simp only [List.length_append]
    omega

/-- A session begins at an offset up to which everything is told. -/
theorem covers_initial (h : Delivering transform s)
    (hcareful : s.committed = none → ∀ f, s.start = some f → s.initial oldest = f)
    (c : Option ClaimSession) :
    Covers transform { s with session := c, start := s.start.or (some (s.initial oldest)) }
      (s.initial oldest) := by
  cases hcommitted : s.committed with
  | none =>
    refine .of_le_start ?_ fun f hf => ?_
    · rw [Subscription.initial, hcommitted, Option.getD_none]
      split <;> simp
    cases hstart : s.start with
    | none => simp_all
    | some f' =>
      have heq := hcareful hcommitted f' hstart
      simp_all
  | some n =>
    have hn : s.initial oldest = n := by rw [Subscription.initial, hcommitted, Option.getD_some]
    have hcovers := h.committed n hcommitted
    rw [hn]
    cases hstart : s.start with
    | none =>
      refine .of_le_start hcovers.le_length fun f hf => ?_
      simp_all
    | some =>
      exact hcovers.of_told (by simp [hstart]) rfl (List.Subset.refl _)

theorem join (h : Delivering transform s)
    (hcareful : s.committed = none → ∀ f, s.start = some f → s.initial oldest = f) :
    Delivering transform { s with
      session := some ⟨s.initial oldest, none, false⟩,
      start := s.start.or (some (s.initial oldest)) } := by
  have hcovers := h.covers_initial hcareful (some ⟨s.initial oldest, none, false⟩)
  refine ⟨h.told, ?_, ?_, ?_, ?_⟩
  · intro n hn
    have heq : s.initial oldest = n := by
      show s.committed.getD _ = n
      rw [show s.committed = some n from hn, Option.getD_some]
    rwa [heq] at hcovers ⊢
  · intro c n hc hn
    cases hc
    simp at hn
  · intro c hc
    cases hc
    exact hcovers.le_length
  · intro c hc _
    cases hc
    exact hcovers

variable {c : ClaimSession}

/-- A message that is not told does not move the marks. -/
theorem message_failed (h : Delivering transform s) (hc : s.session = some c)
    (hvalue : s.log[c.position]? = some value) :
    Delivering transform (s.consume transform c value (some err)) := by
  have hi := (List.getElem?_eq_some_iff.mp hvalue).1
  refine ⟨h.told, ?_, ?_, ?_, ?_⟩
  · intro n hn
    exact (h.committed n hn).of_told rfl rfl (List.Subset.refl _)
  · intro c' n hc' hn
    cases hc'
    exact (h.marked c n hc hn).of_told rfl rfl (List.Subset.refl _)
  · intro c' hc'
    cases hc'
    exact hi
  intro c' hc' hfailed
  cases hc'
  simp only [Bool.or_eq_false_iff] at hfailed
  have hcovers := (h.reached c hc hfailed.1).succ hvalue fun t ht => by
    simp [ht, Except.toOption] at hfailed
  exact hcovers.of_told rfl rfl (List.Subset.refl _)

/-- A message that is told is marked, and the mark covers what is below it. -/
theorem message_told (h : Delivering transform s) (hc : s.session = some c)
    (hvalue : s.log[c.position]? = some value) (ht : transform value = .ok t)
    (hfailed : c.failed = false) : Delivering transform (s.consume transform c value none) := by
  have hi := (List.getElem?_eq_some_iff.mp hvalue).1
  have htold : (s.consume transform c value none).told = s.told ++ [(c.position, some t)] := by
    simp [Subscription.consume, ht, Except.toOption]
  have hsub : s.told ⊆ (s.consume transform c value none).told := by
    rw [htold]
    exact List.subset_append_left _ _
  have hnext : Covers transform (s.consume transform c value none) (c.position + 1) := by
    have hcovers : Covers transform (s.consume transform c value none) c.position :=
      (h.reached c hc hfailed).of_told rfl rfl hsub
    refine hcovers.succ hvalue fun t' ht' => ?_
    rw [ht, Except.ok.injEq] at ht'
    rw [htold, ht']
    exact List.mem_append_right _ List.mem_cons_self
  refine ⟨?_, fun n hn => (h.committed n hn).of_told rfl rfl hsub, ?_, ?_, ?_⟩
  · intro i m hm
    rw [htold, List.mem_append, List.mem_singleton] at hm
    cases hm with
    | inl hold => exact h.told i m hold
    | inr hnew =>
      cases hnew
      exact ⟨value, t, hvalue, ht, rfl⟩
  · intro c' n hc' hn
    cases hc'
    cases hn
    refine Covers.sup ?_ hnext
    cases hmarked : c.marked with
    | none => exact .zero _
    | some k => exact (h.marked c k hc hmarked).of_told rfl rfl hsub
  · intro c' hc'
    cases hc'
    exact hi
  · intro c' hc' _
    cases hc'
    exact hnext

/-- What is marked is committed. -/
theorem commit (h : Delivering transform s) (hc : s.session = some c) :
    Delivering transform { s with committed := c.marked.or s.committed } := by
  have hcovers : ∀ n, c.marked.or s.committed = some n → Covers transform s n := by
    intro n hn
    cases hmarked : c.marked with
    | none =>
      rw [hmarked, Option.none_or] at hn
      exact h.committed n hn
    | some =>
      rw [hmarked, Option.some_or, Option.some.injEq] at hn
      exact h.marked c n hc (hn ▸ hmarked)
  exact ⟨h.told, fun n hn => (hcovers n hn).of_told rfl rfl (List.Subset.refl _),
    fun c' n hc' hn => (h.marked c' n hc' hn).of_told rfl rfl (List.Subset.refl _), h.position,
    fun c' hc' hfailed => (h.reached c' hc' hfailed).of_told rfl rfl (List.Subset.refl _)⟩

theorem leave (h : Delivering transform s) : Delivering transform { s with session := none } := by
  refine ⟨h.told, fun n hn => (h.committed n hn).of_told rfl rfl (List.Subset.refl _), ?_, ?_, ?_⟩ <;> simp

/-- A careful step keeps the invariant. -/
theorem step (h : Delivering transform s)
    (hcareful : Careful transform oldest s e) (hstep : s.step transform oldest e = some s') :
    Delivering transform s' := by
  cases e with
  | publish value =>
    cases hstep
    exact h.publish value
  | join =>
    rw [Subscription.step] at hstep
    split at hstep
    · cases hstep
    cases hstep
    exact h.join hcareful
  | message tellErr =>
    obtain ⟨c, hc, hstep⟩ := Option.bind_eq_some_iff.mp hstep
    obtain ⟨value, hvalue, rfl⟩ := Option.map_eq_some_iff.mp hstep
    cases tellErr with
    | some err => exact h.message_failed hc hvalue
    | none =>
      obtain ⟨⟨t, ht⟩, hfailed⟩ := hcareful c value hc hvalue
      exact h.message_told hc hvalue ht hfailed
  | commit =>
    obtain ⟨c, hc, rfl⟩ := Option.map_eq_some_iff.mp hstep
    exact h.commit hc
  | leave =>
    obtain ⟨c, -, rfl⟩ := Option.map_eq_some_iff.mp hstep
    exact h.leave

end Delivering

/-- **Subscribed events are delivered.**  In every run of careful steps, what is told is the
transformation of an event, and below the committed offset every event since the start of the
subscription that can be transformed has been told. -/
theorem events_delivered (transform : α → Except String τ) (oldest : Bool) (s : Subscription α τ)
    (h : Reachable (Subscription.step transform oldest) (Careful transform oldest) .init s) :
    (∀ i m, (i, m) ∈ s.told →
        ∃ value t, s.log[i]? = some value ∧ transform value = .ok t ∧ m = some t) ∧
      ∀ f n, s.start = some f → s.committed = some n → ∀ i, f ≤ i → i < n → ∀ value t,
        s.log[i]? = some value → transform value = .ok t → (i, some t) ∈ s.told := by
  have hinv : Delivering transform s :=
    h.invariant .init fun _ _ _ _ hinv hcareful hstep => hinv.step hcareful hstep
  refine ⟨hinv.told, ?_⟩
  intro f n hf hn
  exact (hinv.committed n hn).told f hf

/-- Events that are not empty are put into brackets. -/
private def bracket (value : String) : Except String String :=
  if value = "" then .error "empty event" else .ok ("[" ++ value ++ "]")

/-- An event is told and committed. -/
theorem event_delivered :
    ∃ s, Reachable (Subscription.step bracket true) (Careful bracket true) .init s ∧
      s.committed = some 1 ∧ (0, some "[a]") ∈ s.told := by
  have h : Reachable (Subscription.step bracket true) (Careful bracket true) .init
      ⟨["a"], some 1, some ⟨1, some 1, false⟩, some 0, [(0, some "[a]")]⟩ := by
    refine .step (l := .commit) (.step (l := .message none) (.step (l := .join)
      (.step (l := .publish "a") .init trivial rfl) (fun _ f hf => ?_) rfl) ?_ rfl) trivial rfl
    · cases hf
    · intro c value hc hvalue
      cases hc
      cases hvalue
      exact ⟨⟨"[a]", rfl⟩, rfl⟩
  exact ⟨_, h, rfl, (events_delivered bracket true _ h).2 0 1 rfl rfl 0 (by decide) (by decide) "a" "[a]"
    rfl rfl⟩

/-- An event that could not be told is passed over by the mark of the next one, and an empty message is
told for an event that could not be transformed. -/
theorem event_lost :
    (run (Subscription.step bracket true) .init
        [.publish "a", .publish "b", .join, .message (some "timeout"), .message none, .commit]).map
        (fun s => (s.committed, s.told)) = some (some 2, [(1, some "[b]")]) ∧
      (run (Subscription.step bracket true) .init [.publish "", .join, .message none]).map
        (fun s => s.told) = some [(0, none)] :=
  ⟨by decide +kernel, by decide +kernel⟩

/-! ## The sessions of a subscription -/

/-- The channels of the process: those that are closed, and the next one that is made. -/
structure Channels where
  closed : List Nat
  next : Nat
  deriving DecidableEq, Repr

def Channels.make (st : Channels) : Nat × Channels := (st.next, { st with next := st.next + 1 })

/-- A channel that is closed cannot be closed again. -/
def Channels.close (st : Channels) (channel : Nat) : Except String Channels :=
  if channel ∈ st.closed then .error "close of closed channel"
  else .ok { st with closed := channel :: st.closed }

/-- The field of a `subscriber` that its methods change. -/
structure Subscriber where
  ready : Nat
  deriving DecidableEq, Repr

def Subscriber.setup (s : Subscriber) (st : Channels) : Except String (Subscriber × Channels) := do
  let st ← st.close s.ready
  let (ready, st) := st.make
  return ({ s with ready }, st)

/-- A call of `Consume`: whether it gets as far as `Setup`, its error, and whether the context is
cancelled when it returns. -/
structure Consume where
  setup : Bool
  err : Option String
  cancelled : Bool
  deriving DecidableEq, Repr

/-- The loop does not call `Consume` again. -/
def Consume.ends (c : Consume) : Bool := c.err.isSome || c.cancelled

/-- What a call does to the channels.  Every call gets a new subscriber with the channel `ready`. -/
def Consume.session (c : Consume) (ready : Nat) (st : Channels) : Except String Channels :=
  if c.setup then (Subscriber.setup ⟨ready⟩ st).map Prod.snd else .ok st

/-- The goroutine of `subscribe`.  `closed` is closed when the loop has ended, which is the flag that is
returned. -/
def consumeLoop (closed ready : Nat) : List Consume → Channels → Except String (Channels × Bool)
  | [], st => .ok (st, false)
  | c :: cs, st => do
    let st ← c.session ready st
    if c.ends then
      let st ← st.close closed
      return (st, true)
    else
      consumeLoop closed ready cs st

/-- A subscription: whether its loop has ended, and whether `subscribe` has returned. -/
structure SubscribeState where
  ended : Bool
  returned : Bool
  deriving DecidableEq, Repr

/-- `subscribe`, up to the calls of `Consume` that have returned. -/
def subscribe (cs : List Consume) : Except String SubscribeState := do
  let (closed, st) := Channels.make ⟨[], 0⟩
  let (ready, st) := st.make
  let (st, ended) ← consumeLoop closed ready cs st
  return ⟨ended, decide (ready ∈ st.closed ∨ closed ∈ st.closed)⟩

/-- The calls that the loop makes. -/
def executed : List Consume → List Consume
  | [] => []
  | c :: cs => if c.ends then [c] else c :: executed cs

section Sessions

variable {closed ready : Nat} {st : Channels}

theorem Channels.close_of_notMem (h : channel ∉ st.closed) :
    st.close channel = .ok { st with closed := channel :: st.closed } :=
  if_neg h

/-- The end of the loop, or the next call. -/
theorem consumeLoop_cons (hst : c.session ready st = .ok st') (hclosed : closed ∉ st'.closed) :
    consumeLoop closed ready (c :: cs) st = if c.ends then .ok ({ st' with closed := closed ::
      st'.closed }, true) else consumeLoop closed ready cs st' := by
  rw [consumeLoop, hst]
  simp only [bind, Except.bind]
  rw [Channels.close_of_notMem hclosed]
  rfl

/-- How often the channel has been closed. -/
def Channels.used (st : Channels) (ready : Nat) : Nat := if ready ∈ st.closed then 1 else 0

/-- A session with a `Setup` closes the channel. -/
theorem Consume.session_ok {c : Consume} (hne : closed ≠ ready) (hclosed : closed ∉ st.closed)
    (hcount : (if c.setup then 1 else 0) + st.used ready ≤ 1) :
    ∃ st', c.session ready st = .ok st' ∧ closed ∉ st'.closed ∧
      (ready ∈ st'.closed ↔ ready ∈ st.closed ∨ c.setup = true) ∧
      st'.used ready = (if c.setup then 1 else 0) + st.used ready := by
  by_cases hsetup : c.setup = true
  · have hready : ready ∉ st.closed := by
      intro hmem
      rw [if_pos hsetup, Channels.used, if_pos hmem] at hcount
      omega
    refine ⟨⟨ready :: st.closed, st.next + 1⟩, ?_, ?_, ?_, ?_⟩
    · rw [session, if_pos hsetup, Subscriber.setup, Channels.close_of_notMem hready]
      rfl
    · simp [hne, hclosed]
    · simp [hsetup]
    · simp [Channels.used, hsetup, hready]
  · exact ⟨st, if_neg hsetup, hclosed, by simp [hsetup], by simp [hsetup]⟩

/-- A second `Setup` panics. -/
theorem Consume.session_panics {c : Consume} (hcount : 1 < (if c.setup then 1 else 0) + st.used ready) :
    c.session ready st = .error "close of closed channel" := by
  by_cases hsetup : c.setup = true
  · have hready : ready ∈ st.closed := by
      by_contra hmem
      rw [if_pos hsetup, Channels.used, if_neg hmem] at hcount
      omega
    rw [session, if_pos hsetup, Subscriber.setup, Channels.close, if_pos hready]
    rfl
  · rw [if_neg hsetup, Channels.used] at hcount
    split at hcount <;> omega

theorem countP_executed_cons :
    (executed (c :: cs)).countP Consume.setup =
      (if c.setup then 1 else 0) + (if c.ends then 0 else (executed cs).countP Consume.setup) := by
  rw [executed]
  split
  · rw [countP_singleton, Nat.add_zero]
  · rw [countP_cons, Nat.add_comm]

/-- The loop runs on as long as there is one `Setup`. -/
theorem consumeLoop_ok (hne : closed ≠ ready) (hclosed : closed ∉ st.closed)
    (hcount : (executed cs).countP Consume.setup + st.used ready ≤ 1) :
    ∃ st', consumeLoop closed ready cs st = .ok (st', cs.any Consume.ends) ∧
      (ready ∈ st'.closed ↔ ready ∈ st.closed ∨ ∃ c ∈ executed cs, c.setup = true) ∧
      (closed ∈ st'.closed ↔ cs.any Consume.ends = true) := by
  induction cs generalizing st with
  | nil => exact ⟨st, rfl, by simp [executed], by simpa using hclosed⟩
  | cons c _ ih =>
    rw [countP_executed_cons] at hcount
    obtain ⟨st', hst, hclosed', hready, hused⟩ := c.session_ok hne hclosed (by omega)
    rw [consumeLoop_cons hst hclosed']
    by_cases hends : c.ends = true
    · refine ⟨{ st' with closed := closed :: st'.closed }, by simp [hends], ?_, by simp [hends]⟩
      simp [executed, hends, hready, hne.symm]
    rw [if_neg hends] at hcount
    obtain ⟨st'', hrun, hready', hclosed''⟩ := ih hclosed' (by omega)
    refine ⟨st'', ?_, ?_, ?_⟩
    · simp [hends, hrun]
    · simp [executed, hends, hready', hready, or_assoc]
    · simp [hends, hclosed'']

theorem consumeLoop_panics (hne : closed ≠ ready) (hclosed : closed ∉ st.closed)
    (hused : st.used ready ≤ 1) (hcount : 1 < (executed cs).countP Consume.setup + st.used ready) :
    consumeLoop closed ready cs st = .error "close of closed channel" := by
  induction cs generalizing st with
  | nil =>
    rw [executed, countP_nil] at hcount
    omega
  | cons c _ ih =>
    rw [countP_executed_cons] at hcount
    by_cases hfirst : (if c.setup then 1 else 0) + st.used ready ≤ 1
    · obtain ⟨st', hst, hclosed', -, hused'⟩ := c.session_ok hne hclosed hfirst
      rw [consumeLoop_cons hst hclosed']
      by_cases hends : c.ends = true
      · rw [if_pos hends] at hcount
        omega
      · rw [if_neg hends] at hcount ⊢
        exact ih hclosed' (by omega) (by omega)
    · rw [consumeLoop, Consume.session_panics (by omega)]
      rfl

end Sessions

/-- **A subscription and its sessions.**  No `Setup` panics, and `subscribe` has returned exactly if
there was a `Setup` or the loop has ended, exactly if the loop makes at most one call with a `Setup`. -/
theorem subscribe_survives_iff (cs : List Consume) :
    (∃ st, subscribe cs = .ok st ∧ (st.ended = true ↔ ∃ c ∈ cs, c.ends = true) ∧
        (st.returned = true ↔ (∃ c ∈ executed cs, c.setup = true) ∨ st.ended = true)) ↔
      (executed cs).countP Consume.setup ≤ 1 := by
  have hrun : subscribe cs = (consumeLoop 0 1 cs ⟨[], 2⟩ >>= fun r =>
      .ok ⟨r.2, decide (1 ∈ r.1.closed ∨ 0 ∈ r.1.closed)⟩) := rfl
  constructor
  · intro h
    obtain ⟨st, hst, -⟩ := h
    by_contra hcount
    have hpanics : consumeLoop 0 1 cs ⟨[], 2⟩ = .error "close of closed channel" :=
      consumeLoop_panics (by decide) (by decide) (by decide) (by simpa [Channels.used] using hcount)
    rw [hrun, hpanics] at hst
    cases hst
  · intro hcount
    obtain ⟨st, hloop, hready, hclosed⟩ :
        ∃ st, consumeLoop 0 1 cs ⟨[], 2⟩ = .ok (st, cs.any Consume.ends) ∧
          (1 ∈ st.closed ↔ 1 ∈ [] ∨ ∃ c ∈ executed cs, c.setup = true) ∧
          (0 ∈ st.closed ↔ cs.any Consume.ends = true) :=
      consumeLoop_ok (by decide) (by decide) (by simpa [Channels.used] using hcount)
    refine ⟨⟨cs.any Consume.ends, decide (1 ∈ st.closed ∨ 0 ∈ st.closed)⟩, ?_, ?_, ?_⟩
    · rw [hrun, hloop]
      rfl
    · simp
    · show decide (1 ∈ st.closed ∨ 0 ∈ st.closed) = true ↔ _ ∨ cs.any Consume.ends = true
      rw [decide_eq_true_eq]
      rw [hready, hclosed]
      simp

/-- The second session of a subscription panics. -/
theorem second_setup_panics :
    subscribe [⟨true, none, false⟩, ⟨true, none, false⟩] = .error "close of closed channel" := by
  decide +kernel

end Kar.Rpc
