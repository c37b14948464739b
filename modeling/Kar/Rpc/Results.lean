import Kar.Lib.GoMap
import Kar.Lib.Run
import Kar.Rpc.Messages

/-!
# The results of calls

The table `requests` of `core/pkg/rpc/requests.go`, which maps the id of a request to the channel on
which its result is awaited.  A caller stores a channel before it sends its request, and a request that
is recovered stores one for the nested call that it has to wait for.  The message loop takes the channel
of a response out of the table and then sends the result.  Callers delete their entries when they give
up, and so do the parents that were waiting.

A channel has room for one result, and the loop must not wait for its reader.  So the argument is about
what is in the table: a channel that is in the table has never been sent to, and no response to its
request has been accepted since it was stored (`ResultInv`).

Keys may be stored again while an earlier channel is still in the table.  Nothing here asks that they
are distinct.
-/

namespace Kar.Rpc

open Kar.Lib List Function

structure Result where
  value : List UInt8
  err : Option String
  deriving DecidableEq, Repr

def Response.result (m : Response) : Result where
  value := m.value
  err := if m.errMsg = "" then none else some m.errMsg

/-- A channel of capacity one.  `stored` records how many messages had been accepted when it was stored
for its request, and `sent` records the results that were sent on it. -/
structure ResultChannel where
  requestID : String
  stored : Nat
  buffer : Option Result
  sent : List Result
  deriving DecidableEq, Repr

/-- The table, the channels that were ever stored in it, and the send in which the message loop is.
`accepted` records the messages that the loop has taken on. -/
structure ResultTable where
  requests : GoMap String Nat
  channel : Nat → ResultChannel
  numChannels : Nat
  sending : Option (Nat × Result)
  accepted : List Message

inductive ResultEvent
  /-- `async` and `asyncEdited`, before the request is sent. -/
  | async (requestID : String)
  /-- The request was not sent, the caller has its result or gives up, the request is reclaimed, or a
  parent has stopped waiting for its child. -/
  | delete (requestID : String)
  /-- The message loop takes on a message.  The deadline of a request may have expired. -/
  | accept (m : Message) (expired : Bool)
  /-- The message loop sends the result. -/
  | send
  /-- A reader takes the result from its channel. -/
  | receive (c : Nat)
  deriving DecidableEq, Repr

namespace ResultTable

def init : ResultTable where
  requests := .empty
  channel := fun _ => ⟨"", 0, none, []⟩
  numChannels := 0
  sending := none
  accepted := []

variable (s : ResultTable)

/-- `requests.Store` with a new channel. -/
def store (requestID : String) : ResultTable :=
  { s with
    requests := s.requests.set requestID s.numChannels
    channel := Function.update s.channel s.numChannels ⟨requestID, s.accepted.length, none, []⟩
    numChannels := s.numChannels + 1 }

/-- The channel `c` has a buffer, and the results `sent` were sent on it. -/
def fill (c : Nat) (buffer : Option Result) (sent : List Result) : ResultTable :=
  { s with
    channel := Function.update s.channel c { s.channel c with buffer := buffer, sent := sent } }

/-- `accept`, up to the send of a result. -/
def accept (m : Message) (expired : Bool) : ResultTable :=
  let s := { s with accepted := s.accepted ++ [m] }
  match m with
  | .response r =>
    match s.requests.get? r.requestID with
    | none => s
    | some c => { s with requests := s.requests.delete r.requestID, sending := some (c, r.result) }
  | .request v => if expired = true ∨ v.childID = "" then s else s.store v.childID
  | .done _ => s

def step : ResultEvent → Option ResultTable
  | .async requestID => some (s.store requestID)
  | .delete requestID => some { s with requests := s.requests.delete requestID }
  | .accept m expired => if s.sending = none then some (s.accept m expired) else none
  | .send =>
    match s.sending with
    | none => none
    | some (c, r) =>
      -- The channel is full: the loop waits.
      if (s.channel c).buffer.isSome then none
      else some ({ s with sending := none }.fill c (some r) ((s.channel c).sent ++ [r]))
  | .receive c =>
    if (s.channel c).buffer.isSome then some (s.fill c none (s.channel c).sent) else none

/-! ## What is in the table -/

/-- The first response to a request. -/
def firstResponse (requestID : String) : List Message → Option Response
  | [] => none
  | .response m :: ms => if m.requestID = requestID then some m else firstResponse requestID ms
  | _ :: ms => firstResponse requestID ms

theorem firstResponse_append :
    firstResponse requestID (ms ++ ms') =
      (firstResponse requestID ms).or (firstResponse requestID ms') := by
  induction ms with
  | nil => rfl
  | cons m _ ih =>
    cases m with
    | response =>
      rw [cons_append, firstResponse, firstResponse]
      split
      · rfl
      · exact ih
    | request => exact ih
    | done => exact ih

/-- The first response for a channel since it was stored. -/
def first (c : Nat) : Option Response :=
  firstResponse (s.channel c).requestID (s.accepted.drop (s.channel c).stored)

/-- Nothing was ever sent on the channel. -/
def Untouched (c : Nat) : Prop := (s.channel c).buffer = none ∧ (s.channel c).sent = []

structure ResultInv (s : ResultTable) : Prop where
  stored : ∀ k c, s.requests.get? k = some c →
    c < s.numChannels ∧ (s.channel c).requestID = k ∧ s.Untouched c ∧ s.first c = none
  sending : ∀ c r, s.sending = some (c, r) →
    c < s.numChannels ∧ s.Untouched c ∧ (s.first c).map Response.result = some r
  sent : ∀ c, s.Untouched c ∨
    ∃ r, (s.channel c).sent = [r] ∧ (s.first c).map Response.result = some r
  past : ∀ c, (s.channel c).stored ≤ s.accepted.length

theorem resultInv_init : ResultInv init where
  stored := by simp [init]
  sending := by simp [init]
  sent := fun _ => .inl ⟨rfl, rfl⟩
  past := fun _ => Nat.le_refl _

namespace ResultInv

variable {s} (h : s.ResultInv)
include h

/-- The channels of the table that is left keep what holds of them. -/
theorem delete (k : String) : ResultInv { s with requests := s.requests.delete k } where
  stored := by
    intro k' c hc
    rw [GoMap.get?_delete] at hc
    split at hc
    · cases hc
    exact h.stored k' c hc
  sending := h.sending
  sent := h.sent
  past := h.past

/-- A new channel is untouched, and no response has been accepted since. -/
theorem store (k : String) : (s.store k).ResultInv := by
  have hself : (s.store k).channel s.numChannels = ⟨k, s.accepted.length, none, []⟩ :=
    update_self _ _ _
  have hother : ∀ {c}, c ≠ s.numChannels → (s.store k).channel c = s.channel c :=
    fun hne => update_of_ne hne _ _
  have hfirst : ∀ {c}, c ≠ s.numChannels → (s.store k).first c = s.first c := by
    intro c hne
    unfold first
    rw [hother hne]
    rfl
  have huntouched : ∀ {c}, s.Untouched c → (s.store k).Untouched c := by
    intro c hc
    by_cases hne : c = s.numChannels
    · rw [Untouched, hne, hself]
      exact ⟨rfl, rfl⟩
    · rw [Untouched, hother hne]
      exact hc
  refine ⟨?_, ?_, ?_, ?_⟩
  · intro k' c hc
    rw [ResultTable.store, GoMap.get?_set] at hc
    split at hc
    · rename_i hk
      cases hc
      refine ⟨Nat.lt_succ_self _, by rw [hself, hk], by rw [Untouched, hself]; exact ⟨rfl, rfl⟩, ?_⟩
      rw [first, hself]
      show firstResponse k (s.accepted.drop s.accepted.length) = none
      rw [drop_length]
      rfl
    · obtain ⟨hlt, hk, hc', hnone⟩ := h.stored k' c hc
      have hne : c ≠ s.numChannels := Nat.ne_of_lt hlt
      exact ⟨Nat.lt_succ_of_lt hlt, by rw [hother hne, hk], huntouched hc', by rw [hfirst hne, hnone]⟩
  · intro c r hc
    obtain ⟨hlt, hc', hr⟩ := h.sending c r hc
    exact ⟨Nat.lt_succ_of_lt hlt, huntouched hc', by rw [hfirst (Nat.ne_of_lt hlt), hr]⟩
  · intro c
    by_cases hne : c = s.numChannels
    · left
      rw [Untouched, hne, hself]
      exact ⟨rfl, rfl⟩
    · rw [Untouched, hother hne, hfirst hne]
      exact h.sent c
  · intro c
    by_cases hne : c = s.numChannels
    · rw [hne, hself]
      exact Nat.le_refl _
    · rw [hother hne]
      exact h.past c

/-- A message is added to the accepted ones, and it is no response for a channel of the table. -/
theorem extend (m : Message) (hm : ∀ k c, s.requests.get? k = some c → firstResponse k [m] = none) :
    ResultInv { s with accepted := s.accepted ++ [m] } := by
  have hfirst : ∀ c, ({ s with accepted := s.accepted ++ [m] } : ResultTable).first c =
      (s.first c).or (firstResponse (s.channel c).requestID [m]) := by
    intro c
    rw [first, first, drop_append_of_le_length (h.past c), firstResponse_append]
  refine ⟨?_, ?_, ?_, ?_⟩
  · intro k c hc
    obtain ⟨hlt, hk, hc', hnone⟩ := h.stored k c hc
    exact ⟨hlt, hk, hc', by rw [hfirst, hnone, hk, hm k c hc]; rfl⟩
  · intro c r hc
    obtain ⟨hlt, hc', hr⟩ := h.sending c r hc
    obtain ⟨m', hm', hr⟩ := Option.map_eq_some_iff.mp hr
    exact ⟨hlt, hc', by rw [hfirst, hm']; exact congrArg some hr⟩
  · intro c
    cases h.sent c with
    | inl hc => exact .inl hc
    | inr hc =>
      obtain ⟨r, hsent, hr⟩ := hc
      obtain ⟨m', hm', hr⟩ := Option.map_eq_some_iff.mp hr
      exact .inr ⟨r, hsent, by rw [hfirst, hm']; exact congrArg some hr⟩
  · intro c
    rw [length_append]
    exact Nat.le_add_right_of_le (h.past c)

/-- The loop takes a channel out of the table and is about to send the result of the response. -/
theorem take (hc : s.requests.get? m.requestID = some c) :
    ResultInv { s with
      accepted := s.accepted ++ [.response m]
      requests := s.requests.delete m.requestID
      sending := some (c, m.result) } := by
  -- Without the entry of the response and the send that is left, the message is like any other.
  have hrest : ResultInv { s with
      accepted := s.accepted ++ [.response m]
      requests := s.requests.delete m.requestID } := by
    apply (h.delete m.requestID).extend
    intro k c' hk
    rw [GoMap.get?_delete] at hk
    split at hk
    · cases hk
    rename_i hne
    exact if_neg fun heq => hne heq.symm
  obtain ⟨hlt, hk, hc', hnone⟩ := h.stored m.requestID c hc
  refine ⟨hrest.stored, ?_, hrest.sent, hrest.past⟩
  intro c' r hsending
  cases hsending
  refine ⟨hlt, hc', ?_⟩
  rw [first]
  rw [drop_append_of_le_length (h.past c), firstResponse_append]
  rw [first] at hnone
  rw [hnone, hk, Option.none_or, firstResponse, if_pos rfl]
  rfl

theorem accept (m : Message) (expired : Bool) : (s.accept m expired).ResultInv := by
  cases m with
  | response r =>
    rw [ResultTable.accept]
    cases hc : s.requests.get? r.requestID with
    | none =>
      refine h.extend _ fun k c hk => if_neg fun heq => ?_
      rw [← heq, hc] at hk
      cases hk
    | some =>
      exact h.take hc
  | request v =>
    rw [ResultTable.accept]
    have hextend := h.extend (.request v) fun _ _ _ => rfl
    split
    · exact hextend
    · exact hextend.store v.childID
  | done d => exact h.extend (.done d) fun _ _ _ => rfl

omit h in
theorem first_fill (c : Nat) (buffer : Option Result) (sent : List Result) (c' : Nat) :
    (s.fill c buffer sent).first c' = s.first c' := by
  by_cases hne : c' = c
  · subst hne
    simp [first, fill]
  · simp [first, fill, update_of_ne hne]

/-- One result was sent on the channel, and no other one is about to be. -/
theorem fill (buffer : Option Result) (hr : (s.first c).map Response.result = some r)
    (hsending : ∀ c' r', s.sending = some (c', r') → c' ≠ c) :
    (s.fill c buffer [r]).ResultInv := by
  have hother : ∀ {c'}, c' ≠ c → (s.fill c buffer [r]).channel c' = s.channel c' :=
    fun hne => update_of_ne hne _ _
  have hself : (s.fill c buffer [r]).channel c = { s.channel c with buffer := buffer, sent := [r] } :=
    update_self _ _ _
  refine ⟨?_, ?_, ?_, ?_⟩
  · intro k c' hc'
    obtain ⟨hlt, hk, huntouched, hnone⟩ := h.stored k c' hc'
    have hne : c' ≠ c := by
      intro heq
      rw [heq] at hnone
      rw [hnone] at hr
      cases hr
    exact ⟨hlt, by rw [hother hne, hk], by rw [Untouched, hother hne]; exact huntouched,
      by rw [first_fill, hnone]⟩
  · intro c' r' hc'
    have hne := hsending c' r' hc'
    obtain ⟨hlt, huntouched, hr'⟩ := h.sending c' r' hc'
    exact ⟨hlt, by rw [Untouched, hother hne]; exact huntouched, by rw [first_fill, hr']⟩
  · intro c'
    rw [first_fill]
    by_cases hne : c' = c
    · rw [hne, hself]
      exact .inr ⟨r, rfl, hr⟩
    · rw [Untouched, hother hne]
      exact h.sent c'
  · intro c'
    by_cases hne : c' = c
    · rw [hne, hself]
      exact h.past c
    · rw [hother hne]
      exact h.past c'

/-- The loop does not wait: the channel is empty. -/
theorem send (hc : s.sending = some (c, r)) :
    ∃ s', s.step .send = some s' ∧ s'.ResultInv := by
  obtain ⟨hlt, ⟨hbuffer, hsent⟩, hr⟩ := h.sending c r hc
  have hidle : ResultInv { s with sending := none } := ⟨h.stored, by simp, h.sent, h.past⟩
  refine ⟨_, ?_, hidle.fill (some r) hr (by simp)⟩
  simp only [step, hc, hbuffer, hsent, Option.isSome_none, Bool.false_eq_true, if_false, nil_append]

/-- A reader empties a channel. -/
theorem receive (hc : (s.channel c).buffer.isSome = true) :
    (s.fill c none (s.channel c).sent).ResultInv := by
  have htouched : ¬ s.Untouched c := by
    intro huntouched
    rw [huntouched.1] at hc
    cases hc
  cases h.sent c with
  | inl huntouched => exact absurd huntouched htouched
  | inr hr =>
    obtain ⟨r, hsent, hr⟩ := hr
    rw [hsent]
    apply h.fill none hr
    intro c' r' hc' heq
    exact htouched (heq ▸ (h.sending c' r' hc').2.1)

theorem step (hs : s.step e = some s') : s'.ResultInv := by
  cases e with
  | async k =>
    cases hs
    exact h.store k
  | delete k =>
    cases hs
    exact h.delete k
  | accept m expired =>
    rw [ResultTable.step] at hs
    obtain ⟨-, rfl⟩ := of_guard hs
    exact h.accept m expired
  | send =>
    cases hc : s.sending with
    | none => simp [ResultTable.step, hc] at hs
    | some =>
      obtain ⟨s'', hs'', hinv⟩ := h.send hc
      rw [hs, Option.some.injEq] at hs''
      exact hs'' ▸ hinv
  | receive =>
    rw [ResultTable.step] at hs
    obtain ⟨hc, rfl⟩ := of_guard hs
    exact h.receive hc

end ResultInv

/-- At most one result was sent on the channel, and it is the one of the first response to its request
that was accepted after the channel was stored. -/
structure Answered (c : Nat) : Prop where
  once : (s.channel c).sent.length ≤ 1
  first : ∀ r ∈ (s.channel c).sent, ∃ m, s.first c = some m ∧ m.result = r

variable {s}

/-- **Results reach their own caller once.**  Whatever callers, parents and the message loop do, and in
whatever order, each channel gets at most one result, which is that of the first response, and the loop
never waits in a send. -/
theorem results_reach_caller (h : Reachable ResultTable.step (fun _ _ => True) .init s) :
    (∀ c < s.numChannels, s.Answered c) ∧ (s.sending ≠ none → ∃ s', s.step .send = some s') := by
  have hinv : s.ResultInv := by
    induction h with
    | init => exact resultInv_init
    | step _ _ hs ih => exact ih.step hs
  refine ⟨fun c _ => ?_, fun hsending => ?_⟩
  · cases hinv.sent c with
    | inl huntouched =>
      refine ⟨?_, fun r hr => ?_⟩
      · rw [huntouched.2]
        exact Nat.zero_le 1
      · rw [huntouched.2] at hr
        cases hr
    | inr hr =>
      obtain ⟨r, hsent, hr⟩ := hr
      refine ⟨by rw [hsent]; exact Nat.le_refl 1, fun r' hr' => ?_⟩
      rw [hsent, List.mem_singleton] at hr'
      obtain ⟨m, hm, hr⟩ := Option.map_eq_some_iff.mp hr
      exact ⟨m, hm, hr.trans hr'.symm⟩
  · cases hc : s.sending with
    | none => exact absurd hc hsending
    | some =>
      obtain ⟨s', hs', -⟩ := hinv.send hc
      exact ⟨s', hs'⟩

/-- A response with one byte. -/
private def answer (requestID : String) (byte : UInt8) : Message :=
  .response ⟨requestID, [byte], none, "", "n"⟩

/-- Two calls, with a response to the second one that comes twice. -/
private def twoCalls : List ResultEvent :=
  [.async "a", .async "b", .accept (answer "b" 1) false, .send, .accept (answer "b" 2) false,
    .accept (answer "c" 3) false, .accept (answer "a" 4) false]

/-- The second response to a call is dropped, and the loop is about to answer the other call. -/
theorem results_reach_two_callers : ∃ s, run ResultTable.step .init twoCalls = some s ∧
    s.Answered 0 ∧ s.Answered 1 ∧ (s.channel 1).sent = [⟨[1], none⟩] ∧
    s.sending = some (0, ⟨[4], none⟩) ∧ ∃ s', s.step .send = some s' := by
  have hok : runOk ResultTable.step (fun _ _ => True) .init twoCalls = true := by decide +kernel
  obtain ⟨s, hrun, hs⟩ := reachable_of_run .init hok
  have hstate := eq_of_run (fun s : ResultTable => (s.numChannels, (s.channel 1).sent, s.sending))
    (a := (2, [⟨[1], none⟩], some (0, ⟨[4], none⟩))) hrun (by decide +kernel)
  simp only [Prod.mk.injEq] at hstate
  obtain ⟨hnum, hsent, hsending⟩ := hstate
  have hanswered := results_reach_caller hs
  rw [hnum, hsending] at hanswered
  exact ⟨s, hrun, hanswered.1 0 (by decide), hanswered.1 1 (by decide), hsent, hsending,
    hanswered.2 (by simp)⟩

end ResultTable

end Kar.Rpc
