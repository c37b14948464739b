import Kar.Debugger.Deadlock
import Kar.Lib.WaitGraph

/-!
# Flows of nested calls

What a snapshot of the busy actors means.  A flow is a chain of calls, each sent by the handler of the one
before it.  An actor handles the requests of one flow at a time, and a flow may call an actor again that
it already holds.  So the requests of a consistent snapshot are a graph of tasks that hold actors and wait
for others (`waitGraph`), and what the search reports is read off the general results about such graphs.

A deadlock is a cycle of flows, each of which has sent its last request to an actor that the next one
holds.  Every deadlock is reported (`deadlock_reported`).  But a report need not be a deadlock: the search
also reports a flow that waits at an actor through which the calls of another flow have come twice
(`reports_sound_iff`).
-/

namespace Kar.Debugger

open Kar.Lib List

namespace BusyInfo

variable (b : BusyInfo)

/-- The actor `a` is handling the request, which is of flow `f`. -/
def Handles (id f : String) (a : Actor) : Prop :=
  ∃ h, b.actorHandling.get? id = some h ∧ h.flowId = f ∧ h.actor = a

/-- The actor is handling a request of the flow. -/
def Holds (f : String) (a : Actor) : Prop := ∃ id, b.Handles id f a

/-- In flow `f`, the handler of request `p` has sent the request `r`. -/
def Calls (f p r : String) : Prop :=
  (∃ a, b.Handles p f a) ∧ ∃ i, b.sent r = some i ∧ i.parentId = p ∧ i.flowId = f

/-- The first request of a flow.  It is handled, and the snapshot has not seen it being sent, or it was
sent by somebody that the snapshot does not know. -/
def Root (f r : String) : Prop :=
  (b.sent r = none ∧ ∃ a, b.Handles r f a) ∨
    ∃ i, b.sent r = some i ∧ i.flowId = f ∧ b.sent i.parentId = none ∧
      b.actorHandling.get? i.parentId = none

/-- The requests of a flow are a chain of nested calls from one root. -/
structure Nested (f : String) (ids : List String) : Prop where
  nodup : ids.Nodup
  root : ∀ r ∈ ids.head?, b.Root f r
  calls : ids.IsChain (b.Calls f)
  sent : ∀ r i, b.sent r = some i → i.flowId = f → r ∈ ids
  handled : ∀ r a, b.Handles r f a → r ∈ ids

structure Consistent : Prop where
  one_flow : ∀ f g a, b.Holds f a → b.Holds g a → f = g
  /-- A request that was sent and is handled is the same in both maps. -/
  same : ∀ id i f a, b.sent id = some i → b.Handles id f a → i.flowId = f ∧ i.actor = a
  sent_ne : ∀ id i, b.sent id = some i → i.actor ≠ .empty
  handled_ne : ∀ f a, b.Holds f a → a ≠ .empty
  nested : ∀ f, ∃ ids, b.Nested f ids

/-- The last request of flow `f`: the one that has not sent another. -/
def Last (f id : String) (i : ActorSentInfo) : Prop :=
  b.sent id = some i ∧ i.flowId = f ∧ ∀ r j, b.sent r = some j → j.parentId ≠ id

/-- The last request of flow `f`, whose edge is one of the given ones, is for an actor of another flow. -/
def WaitsFor (among : Edge → Prop) (f g : String) : Prop :=
  f ≠ g ∧ ∃ id i, among (sentEdge b id i) ∧ b.Last f id i ∧ b.Holds g i.actor

/-- The flows `f :: fs` are distinct, and each waits for the next one in a cycle. -/
structure Deadlock (among : Edge → Prop) (f : String) (fs : List String) : Prop where
  nonempty : fs ≠ []
  nodup : (f :: fs).Nodup
  cycle : (f :: (fs ++ [f])).IsChain (b.WaitsFor among)

/-- The calls of flow `g` lead from an actor back to it. -/
def Loops (g : String) (a : Actor) : Prop :=
  ∃ es, es ≠ [] ∧ Walk Edge.srcActor Edge.dstActor a es a ∧
    ∀ e ∈ es, ∃ id i, b.sent id = some i ∧ i.flowId = g ∧ e = sentEdge b id i

/-- The actor that a request is for. -/
def actorOf (r : String) : Actor :=
  match b.sent r with
  | some i => i.actor
  | none => (b.handling r).actor

variable {b}

variable {id f r g : String} {i : ActorSentInfo}

theorem handling_of_get? (hget : b.actorHandling.get? id = some h) :
    b.handling id = h := by
  rw [handling, GoMap.getD_eq, hget]
  rfl

theorem handling_of_none (hget : b.actorHandling.get? id = none) :
    (b.handling id).actor = .empty := by
  rw [handling, GoMap.getD_eq, hget]
  rfl

theorem Handles.handling (h : b.Handles id f a) :
    (b.handling id).actor = a := by
  obtain ⟨i, hget, -, hactor⟩ := h
  rw [handling_of_get? hget, hactor]

theorem actorOf_of_sent (h : b.sent r = some i) :
    b.actorOf r = i.actor := by
  rw [actorOf, h]

namespace Nested

variable {f : String} (h : b.Nested f ids)

include h

/-- A request of the chain is its root or was sent by another one. -/
theorem cases (hr : r ∈ ids) : b.Root f r ∨ ∃ p ∈ ids, b.Calls f p r := by
  obtain ⟨before, after, hsplit⟩ := append_of_mem hr
  have hcalls := h.calls
  have hroot := h.root
  rw [hsplit] at hcalls hroot
  cases eq_nil_or_concat' before with
  | inl hnil =>
    left
    rw [hnil] at hroot
    exact hroot r rfl
  | inr hconcat =>
    right
    obtain ⟨before', p, hbefore⟩ := hconcat
    rw [hbefore, append_assoc] at hcalls
    have hpair := hcalls.right_of_append
    rw [singleton_append, isChain_cons_cons] at hpair
    refine ⟨p, ?_, hpair.1⟩
    rw [hsplit, hbefore]
    exact mem_append_left _ (mem_append_right _ (mem_singleton.mpr rfl))

/-- A request of the chain that is not handled is the last one. -/
theorem eq_last (hr : r ∈ ids) (hnot : ∀ a, ¬ b.Handles r f a) :
    ∃ before, ids = before ++ [r] := by
  obtain ⟨before, after, hsplit⟩ := append_of_mem hr
  cases after with
  | nil => exact ⟨before, hsplit⟩
  | cons =>
    have hcalls := h.calls
    rw [hsplit] at hcalls
    have hpair := hcalls.right_of_append
    rw [isChain_cons_cons] at hpair
    obtain ⟨⟨a, ha⟩, -⟩ := hpair.1
    exact absurd ha (hnot a)

end Nested

namespace Consistent

variable (h : b.Consistent)

include h

theorem actorOf_of_handles (hr : b.Handles r f a) : b.actorOf r = a := by
  unfold actorOf
  cases hsent : b.sent r with
  | none => exact hr.handling
  | some i => exact (h.same r i f a hsent hr).2

/-- The parent of a request is of the same flow. -/
theorem parent_cases (hr : b.sent r = some i) :
    (b.sent i.parentId = none ∧ b.actorHandling.get? i.parentId = none) ∨
      ∃ a, b.Handles i.parentId i.flowId a := by
  obtain ⟨ids, hids⟩ := h.nested i.flowId
  cases hids.cases (hids.sent r i hr rfl) with
  | inl hroot =>
    left
    cases hroot with
    | inl hroot =>
      rw [hr] at hroot
      exact absurd hroot.1 (Option.some_ne_none _)
    | inr hroot =>
      obtain ⟨j, hj, -, hnone⟩ := hroot
      rw [hr, Option.some.injEq] at hj
      rw [hj]
      exact hnone
  | inr hcalls =>
    right
    obtain ⟨p, -, hp, j, hj, hparent, -⟩ := hcalls
    rw [hr, Option.some.injEq] at hj
    rw [hj, hparent, ← hj]
    exact hp

/-- An edge that leads to an actor is the edge of a request, or leads to the handler of a root. -/
theorem edge_cases (he : e ∈ edges b) (hdst : e.dstActor ≠ .empty) :
    (∃ r i, b.sent r = some i ∧ e = sentEdge b r i) ∨ ∃ r i, b.sent r = some i ∧ e = rootEdge b i ∧
      b.Handles i.parentId i.flowId (rootEdge b i).dstActor := by
  cases mem_edges.mp he with
  | inr hsent => exact .inl hsent
  | inl hroot =>
    right
    obtain ⟨r, i, hsent, -, rfl⟩ := hroot
    refine ⟨r, i, hsent, rfl, ?_⟩
    cases h.parent_cases hsent with
    | inl hnone => exact absurd (handling_of_none hnone.2) hdst
    | inr hhandles =>
      obtain ⟨a, ha⟩ := hhandles
      rw [show (rootEdge b i).dstActor = a from ha.handling]
      exact ha

omit h in
/-- A flow with an edge has sent a request. -/
theorem exists_sent (he : e ∈ edges b) :
    ∃ r i, b.sent r = some i ∧ i.flowId = e.req.callStack := by
  cases mem_edges.mp he with
  | inl hroot =>
    obtain ⟨r, i, hsent, -, rfl⟩ := hroot
    exact ⟨r, i, hsent, rfl⟩
  | inr hsent =>
    obtain ⟨r, i, hsent, rfl⟩ := hsent
    exact ⟨r, i, hsent, rfl⟩

theorem held_src (he : e ∈ edges b) :
    e.srcActor = .empty ∨ b.Holds e.req.callStack e.srcActor := by
  cases mem_edges.mp he with
  | inl hroot =>
    obtain ⟨r, i, -, -, rfl⟩ := hroot
    exact .inl rfl
  | inr hsent =>
    obtain ⟨r, i, hsent, rfl⟩ := hsent
    cases h.parent_cases hsent with
    | inl hnone => exact .inl (handling_of_none hnone.2)
    | inr hhandles =>
      right
      obtain ⟨a, ha⟩ := hhandles
      rw [show (sentEdge b r i).srcActor = a from ha.handling]
      exact ⟨i.parentId, ha⟩

/-- An edge to an actor that its flow does not hold is that of the last request of the flow. -/
theorem waiting (he : e ∈ edges b) (hdst : e.dstActor ≠ .empty)
    (hnot : ¬ b.Holds e.req.callStack e.dstActor) :
    ∃ r i, b.sent r = some i ∧ e = sentEdge b r i ∧ ∀ a, ¬ b.Handles r i.flowId a := by
  cases h.edge_cases he hdst with
  | inl hsent =>
    obtain ⟨r, i, hsent, rfl⟩ := hsent
    refine ⟨r, i, hsent, rfl, ?_⟩
    intro a ha
    apply hnot
    rw [show (sentEdge b r i).dstActor = a from (h.same r i _ a hsent ha).2]
    exact ⟨r, ha⟩
  | inr hroot =>
    obtain ⟨r, i, -, rfl, hhandles⟩ := hroot
    exact absurd ⟨i.parentId, hhandles⟩ hnot

/-- The edge of a call. -/
theorem edge_of_calls (hcalls : b.Calls f p r) :
    ∃ e ∈ edges b, e.dstActor ≠ .empty ∧ e.req.callStack = f ∧ e.srcActor = b.actorOf p ∧
      e.dstActor = b.actorOf r := by
  obtain ⟨⟨a, ha⟩, i, hsent, hparent, hflow⟩ := hcalls
  refine ⟨sentEdge b r i, mem_edges.mpr (.inr ⟨r, i, hsent, rfl⟩), h.sent_ne r i hsent, hflow, ?_, ?_⟩
  · rw [h.actorOf_of_handles ha, ← ha.handling, ← hparent]
    rfl
  · rw [actorOf_of_sent hsent]
    rfl

/-- The calls lead from a request to every later one. -/
theorem walk_of_calls (hcalls : (p :: rs).IsChain (b.Calls f)) (hq : q ∈ p :: rs) :
    ∃ es, Walk Edge.srcActor Edge.dstActor (b.actorOf p) es (b.actorOf q) ∧
      ∀ e ∈ es, (e ∈ edges b ∧ e.dstActor ≠ .empty) ∧ e.req.callStack = f := by
  induction rs generalizing p with
  | nil =>
    rw [mem_singleton.mp hq]
    exact ⟨[], rfl, fun e he => absurd he not_mem_nil⟩
  | cons _ _ ih =>
    cases mem_cons.mp hq with
    | inl heq =>
      rw [heq]
      exact ⟨[], rfl, fun e he => absurd he not_mem_nil⟩
    | inr hq =>
      rw [isChain_cons_cons] at hcalls
      obtain ⟨e, he, hne, hflow, hsrc, hdst⟩ := h.edge_of_calls hcalls.1
      obtain ⟨es, hwalk, hall⟩ := ih hcalls.2 hq
      refine ⟨e :: es, ⟨hsrc, by rwa [hdst]⟩, ?_⟩
      intro x hx
      cases mem_cons.mp hx with
      | inl heq =>
        rw [heq]
        exact ⟨⟨he, hne⟩, hflow⟩
      | inr hx => exact hall x hx

/-- The edge to the actor of the root, if the flow has sent a request. -/
theorem edge_of_root (hids : b.Nested f (r :: rs)) (hsent : ∃ s i, b.sent s = some i ∧ i.flowId = f) :
    ∃ e ∈ edges b, e.dstActor ≠ .empty ∧ e.req.callStack = f ∧ e.srcActor = .empty ∧
      e.dstActor = b.actorOf r := by
  cases hids.root r rfl with
  | inr hroot =>
    obtain ⟨i, hr, hflow, -, hnone⟩ := hroot
    refine ⟨sentEdge b r i, mem_edges.mpr (.inr ⟨r, i, hr, rfl⟩), h.sent_ne r i hr, hflow,
      handling_of_none hnone, ?_⟩
    rw [actorOf_of_sent hr]
    rfl
  | inl hroot =>
    obtain ⟨hr, a, ha⟩ := hroot
    cases rs with
    | nil =>
      -- The only request of the flow was not sent.
      obtain ⟨s, i, hs, hflow⟩ := hsent
      rw [mem_singleton.mp (hids.sent s i hs hflow), hr] at hs
      exact absurd hs.symm (Option.some_ne_none _)
    | cons s =>
      have hcalls := hids.calls
      rw [isChain_cons_cons] at hcalls
      obtain ⟨-, i, hs, hparent, hflow⟩ := hcalls.1
      have hdst : (rootEdge b i).dstActor = a := by
        show (b.handling i.parentId).actor = a
        rw [hparent]
        exact ha.handling
      refine ⟨rootEdge b i, mem_edges.mpr (.inl ⟨s, i, hs, by rw [hparent, hr], rfl⟩), ?_, hflow, rfl,
        ?_⟩
      · rw [hdst]
        exact h.handled_ne f a ⟨r, ha⟩
      · rw [hdst, h.actorOf_of_handles ha]

/-- A flow waits with one request. -/
theorem wait_unique (he : e ∈ edges b ∧ e.dstActor ≠ .empty)
    (he' : e' ∈ edges b ∧ e'.dstActor ≠ .empty) (hflow : e.req.callStack = e'.req.callStack)
    (hnot : ¬ b.Holds e.req.callStack e.dstActor) (hnot' : ¬ b.Holds e'.req.callStack e'.dstActor) :
    e = e' := by
  obtain ⟨r, i, hr, rfl, hunhandled⟩ := h.waiting he.1 he.2 hnot
  obtain ⟨r', i', hr', rfl, hunhandled'⟩ := h.waiting he'.1 he'.2 hnot'
  have hflow : i.flowId = i'.flowId := hflow
  obtain ⟨ids, hids⟩ := h.nested i.flowId
  obtain ⟨before, hlast⟩ := hids.eq_last (hids.sent r i hr rfl) hunhandled
  obtain ⟨before', hlast'⟩ := hids.eq_last (hids.sent r' i' hr' hflow.symm) (hflow ▸ hunhandled')
  have hsame := (append_inj' (hlast.symm.trans hlast') rfl).2
  rw [cons.injEq] at hsame
  rw [hsame.1, hr', Option.some.injEq] at hr
  rw [hsame.1, hr]

theorem reach (he : e ∈ edges b) (ha : b.Holds e.req.callStack a) :
    ∃ es, Walk Edge.srcActor Edge.dstActor .empty es a ∧
      ∀ x ∈ es, (x ∈ edges b ∧ x.dstActor ≠ .empty) ∧ x.req.callStack = e.req.callStack := by
  obtain ⟨r, hr⟩ := ha
  obtain ⟨ids, hids⟩ := h.nested e.req.callStack
  have hmem := hids.handled r a hr
  cases ids with
  | nil => exact absurd hmem not_mem_nil
  | cons =>
    obtain ⟨e₀, he₀, hne₀, hflow₀, hsrc₀, hdst₀⟩ := h.edge_of_root hids (exists_sent he)
    obtain ⟨es, hwalk, hall⟩ := h.walk_of_calls hids.calls hmem
    rw [h.actorOf_of_handles hr, ← hdst₀] at hwalk
    refine ⟨e₀ :: es, ⟨hsrc₀, hwalk⟩, ?_⟩
    intro x hx
    cases mem_cons.mp hx with
    | inl heq =>
      rw [heq]
      exact ⟨⟨he₀, hne₀⟩, hflow₀⟩
    | inr hx => exact hall x hx

theorem ahead (he : e ∈ edges b ∧ e.dstActor ≠ .empty)
    (hnot : ¬ b.Holds e.req.callStack e.dstActor) (ha : b.Holds e.req.callStack a) :
    ∃ es, Walk Edge.srcActor Edge.dstActor a es e.srcActor ∧
      ∀ x ∈ es, (x ∈ edges b ∧ x.dstActor ≠ .empty) ∧ x.req.callStack = e.req.callStack := by
  obtain ⟨r, hr⟩ := ha
  obtain ⟨s, i, hs, rfl, hunhandled⟩ := h.waiting he.1 he.2 hnot
  obtain ⟨ids, hids⟩ := h.nested i.flowId
  obtain ⟨before, hlast⟩ := hids.eq_last (hids.sent s i hs rfl) hunhandled
  have hmem := hids.handled r a hr
  have hcalls := hids.calls
  rw [hlast] at hmem hcalls
  cases mem_append.mp hmem with
  | inr hmem =>
    rw [mem_singleton.mp hmem] at hr
    exact absurd hr (hunhandled a)
  | inl hmem =>
    -- The walk goes up to the request before the last one, which has sent the last one.
    obtain ⟨before', after, hsplit⟩ := append_of_mem hmem
    rw [hsplit, append_assoc] at hcalls
    have hrest := hcalls.right_of_append
    cases eq_nil_or_concat' (r :: after) with
    | inl hnil => exact absurd hnil (cons_ne_nil _ _)
    | inr hconcat =>
      obtain ⟨rs, p, hp⟩ := hconcat
      have hpair := hrest
      rw [hp, append_assoc] at hpair
      obtain ⟨⟨a', ha'⟩, j, hj, hparent, -⟩ := isChain_pair.mp hpair.right_of_append
      rw [hs, Option.some.injEq] at hj
      have hpmem : p ∈ r :: after := by
        rw [hp]
        exact mem_append_right _ (mem_singleton.mpr rfl)
      obtain ⟨es, hwalk, hall⟩ := h.walk_of_calls hrest.left_of_append hpmem
      rw [h.actorOf_of_handles hr, h.actorOf_of_handles ha', ← ha'.handling, ← hparent, ← hj] at hwalk
      exact ⟨es, hwalk, hall⟩

end Consistent

/-- The flows of a consistent snapshot hold actors and wait for others. -/
def waitGraph (h : b.Consistent) : WaitGraph Actor Edge String where
  src := Edge.srcActor
  dst := Edge.dstActor
  task := fun e => e.req.callStack
  start := .empty
  edge := fun e => e ∈ edges b ∧ e.dstActor ≠ .empty
  holds := b.Holds
  holder_unique := fun hf hg => h.one_flow _ _ _ hf hg
  not_holds_start := fun f hf => h.handled_ne f _ hf rfl
  dst_ne_start := fun he => he.2
  held_src := fun he => h.held_src he.1
  wait_unique := h.wait_unique
  reach := fun he => h.reach he.1
  ahead := fun he hnot ha => h.ahead he hnot ha

/-! ## Waiting and reports in the two graphs -/

section Bridge

variable (h : b.Consistent)

/-- A flow whose last request is for an actor of another flow waits there. -/
theorem waits_of_last (hfg : f ≠ g) (hlast : b.Last f id i)
    (hholds : b.Holds g i.actor) : (waitGraph h).Waits (sentEdge b id i) := by
  refine ⟨⟨mem_edges.mpr (.inr ⟨id, i, hlast.1, rfl⟩), h.sent_ne id i hlast.1⟩, ?_⟩
  intro hown
  have hown' : b.Holds i.flowId i.actor := hown
  rw [hlast.2.1] at hown'
  exact hfg (h.one_flow f g _ hown' hholds)

/-- A request with which a flow waits is its last one. -/
theorem last_of_waits (hw : (waitGraph h).Waits w) :
    ∃ id i, w = sentEdge b id i ∧ b.Last w.req.callStack id i := by
  obtain ⟨id, i, hsent, rfl, hunhandled⟩ := h.waiting hw.1.1 hw.1.2 hw.2
  refine ⟨id, i, rfl, hsent, rfl, ?_⟩
  intro r j hr hparent
  -- A request that has sent another one is handled.
  cases h.parent_cases hr with
  | inl hnone =>
    rw [hparent, hsent] at hnone
    exact absurd hnone.1 (Option.some_ne_none _)
  | inr hhandles =>
    obtain ⟨a, ha⟩ := hhandles
    rw [hparent] at ha
    rw [← (h.same id i _ a hsent ha).1] at ha
    exact hunhandled a ha

theorem waitsFor_iff :
    (waitGraph h).WaitsFor among f g ↔ b.WaitsFor among f g := by
  constructor
  · intro hwaits
    refine ⟨hwaits.ne, ?_⟩
    obtain ⟨w, hamong, hw, hflow, hholds⟩ := hwaits
    obtain ⟨id, i, heq, hlast⟩ := last_of_waits h hw
    rw [show w.req.callStack = f from hflow] at hlast
    rw [heq] at hamong hholds
    exact ⟨id, i, hamong, hlast, hholds⟩
  · intro hwaits
    obtain ⟨hfg, id, i, hamong, hlast, hholds⟩ := hwaits
    exact ⟨sentEdge b id i, hamong, waits_of_last h hfg hlast hholds, hlast.2.1, hholds⟩

theorem deadlock_iff :
    (waitGraph h).Deadlock among f fs ↔ b.Deadlock among f fs := by
  have hiff : ∀ f g, (waitGraph h).WaitsFor among f g ↔ b.WaitsFor among f g :=
    fun f g => waitsFor_iff h
  constructor
  · exact fun hd => ⟨hd.nonempty, hd.nodup, (List.IsChain.iff hiff).mp hd.cycle⟩
  · exact fun hd => ⟨hd.nonempty, hd.nodup, (List.IsChain.iff hiff).mpr hd.cycle⟩

variable {p path : List Edge}

/-- Every actor that is entered by a walk that is reported is left by an edge after the first. -/
theorem exists_next_of_reports (hreports : Reports (makeDeadlockGraph b) path p)
    {f : Edge} (hf : f ∈ path) : ∃ g ∈ path.tail, g.srcActor = f.dstActor := by
  obtain ⟨a, hpath, -⟩ := id hreports
  obtain ⟨before, e, cycle, l, hsplit, -, -, hclosed, -⟩ := reports_iff.mp hreports
  obtain ⟨before', after, hsplit'⟩ := append_of_mem hf
  have hwalk := hpath.walk
  cases after with
  | cons g =>
    rw [hsplit'] at hwalk ⊢
    obtain ⟨c, -, hrest⟩ := walk_append.mp hwalk
    refine ⟨g, ?_, hrest.2.1⟩
    cases before' with
    | nil => exact mem_cons_self
    | cons =>
      exact mem_append_right _ (mem_cons_of_mem f mem_cons_self)
  | nil =>
    -- The last edge leads back to where the cycle begins.
    have hend : f.dstActor = e.dstActor := by
      have hlast : path = before ++ e :: cycle ++ [l] := by
        rw [hsplit, append_assoc]
        rfl
      rw [← hclosed.dst_last, (cons.inj (append_inj' (hsplit'.symm.trans hlast) rfl).2).1]
    rw [hend]
    cases hcycle : cycle ++ [l] with
    | nil => simp at hcycle
    | cons c =>
      rw [hcycle] at hclosed hsplit
      refine ⟨c, ?_, hclosed.1⟩
      rw [hsplit]
      cases before with
      | nil => exact mem_cons_self
      | cons => exact mem_append_right _ (mem_cons_of_mem e mem_cons_self)

/-- So no edge of it leads to the empty actor. -/
theorem dst_ne_of_reports (hreports : Reports (makeDeadlockGraph b) path p) :
    ∀ e ∈ path, e.dstActor ≠ .empty := by
  intro e he hempty
  obtain ⟨g, hg, hsrc⟩ := exists_next_of_reports hreports he
  obtain ⟨a, hpath, -⟩ := hreports
  cases path with
  | nil => exact absurd he not_mem_nil
  | cons =>
    have hnodup := hpath.nodup
    rw [map_cons, hpath.walk.1, nodup_cons] at hnodup
    exact hnodup.1 (mem_map.mpr ⟨g, hg, hsrc.trans hempty⟩)

theorem reported_of_reports (hreports : Reports (makeDeadlockGraph b) path p) :
    ∃ before e cycle l, p = e :: (cycle ++ [l]) ∧ (waitGraph h).Reported before e cycle l := by
  have hne := dst_ne_of_reports hreports
  obtain ⟨before, e, cycle, l, rfl, hp, hbefore, hclosed, hnodup, hedges, hflow⟩ :=
    reports_iff.mp hreports
  exact ⟨before, e, cycle, l, hp, hbefore, hclosed, hnodup,
    fun f hf => ⟨(mem_makeDeadlockGraph.mp (hedges f hf)).1, hne f hf⟩, hflow⟩

theorem reports_of_reported (hreported : (waitGraph h).Reported before e cycle l) :
    Reports (makeDeadlockGraph b) (before ++ e :: (cycle ++ [l])) (e :: (cycle ++ [l])) :=
  reports_iff.mpr ⟨before, e, cycle, l, rfl, rfl, hreported.walk, hreported.closed, hreported.nodup,
    fun f hf => mem_makeDeadlockGraph.mpr ⟨(hreported.edges f hf).1, rfl⟩, hreported.tasks⟩

end Bridge

/-! ## Two snapshots -/

/-- A request of flow `f`. -/
private def request (a parent f : String) : ActorSentInfo := ⟨⟨"Account", a⟩, parent, "", f⟩

/-- The flow `f` holds the account `a` and waits for `b`, and the flow `g` the other way round. -/
private def transfers : BusyInfo where
  actorHandling := (GoMap.empty.set "f1" (request "a" "" "f")).set "g1" (request "b" "" "g")
  actorSent := [("f2", request "b" "f1" "f"), ("g2", request "a" "g1" "g")]
  keys := by decide

private theorem transfers_handles : transfers.Handles id f a ↔
    (id = "f1" ∧ f = "f" ∧ a = ⟨"Account", "a"⟩) ∨ (id = "g1" ∧ f = "g" ∧ a = ⟨"Account", "b"⟩) := by
  unfold Handles transfers
  simp only [GoMap.get?_set, GoMap.get?_empty]
  by_cases hg : id = "g1"
  · simp [hg, request, eq_comm]
  · by_cases hf : id = "f1"
    · simp [hf, request, eq_comm]
    · simp [hf, hg]

private theorem transfers_sent : transfers.sent id = some i ↔
    (id = "f2" ∧ i = request "b" "f1" "f") ∨ (id = "g2" ∧ i = request "a" "g1" "g") := by
  rw [sent_eq_some]
  simp [transfers]

private theorem transfers_consistent : transfers.Consistent where
  one_flow := by
    intro f g a hf hg
    obtain ⟨id, hf⟩ := hf
    obtain ⟨id', hg⟩ := hg
    rw [transfers_handles] at hf hg
    grind
  same := by
    intro id i f a hsent hhandles
    rw [transfers_sent] at hsent
    rw [transfers_handles] at hhandles
    grind
  sent_ne := by
    intro id i hsent
    rw [transfers_sent] at hsent
    grind [request, Actor.empty]
  handled_ne := by
    intro f a hholds
    obtain ⟨id, hholds⟩ := hholds
    rw [transfers_handles] at hholds
    grind [Actor.empty]
  nested := by
    intro f
    have hsent := fun id i => @transfers_sent id i
    have hhandles := fun id f a => @transfers_handles id f a
    by_cases hf : f = "f"
    · subst hf
      refine ⟨["f1", "f2"], by decide, ?_, ?_, by grind [request], by grind⟩
      · intro r hr
        cases hr
        exact .inl ⟨by decide, _, (hhandles ..).mpr (.inl ⟨rfl, rfl, rfl⟩)⟩
      · refine isChain_pair.mpr ⟨⟨_, (hhandles ..).mpr (.inl ⟨rfl, rfl, rfl⟩)⟩, ?_⟩
        exact ⟨_, rfl, rfl, rfl⟩
    by_cases hg : f = "g"
    · subst hg
      refine ⟨["g1", "g2"], by decide, ?_, ?_, by grind [request], by grind⟩
      · intro r hr
        cases hr
        exact .inl ⟨by decide, _, (hhandles ..).mpr (.inr ⟨rfl, rfl, rfl⟩)⟩
      · refine isChain_pair.mpr ⟨⟨_, (hhandles ..).mpr (.inr ⟨rfl, rfl, rfl⟩)⟩, ?_⟩
        exact ⟨_, rfl, rfl, rfl⟩
    · refine ⟨[], nodup_nil, ?_, .nil, by grind [request], by grind⟩
      exact fun r hr => absurd hr (Option.not_mem_none r)

private theorem transfers_deadlock : transfers.Deadlock (fun _ => True) "f" ["g"] where
  nonempty := cons_ne_nil _ _
  nodup := by decide
  cycle := by
    -- Neither of the two requests has sent another one.
    have hlast : ∀ r j, transfers.sent r = some j → j.parentId ≠ "f2" ∧ j.parentId ≠ "g2" := by
      intro r j hr
      rw [transfers_sent] at hr
      grind [request]
    refine isChain_cons_cons.mpr ⟨?_, isChain_pair.mpr ?_⟩
    · exact ⟨by decide, "f2", _, trivial, ⟨rfl, rfl, fun r j hr => (hlast r j hr).1⟩, "g1",
        transfers_handles.mpr (.inr ⟨rfl, rfl, rfl⟩)⟩
    · exact ⟨by decide, "g2", _, trivial, ⟨rfl, rfl, fun r j hr => (hlast r j hr).2⟩, "f1",
        transfers_handles.mpr (.inl ⟨rfl, rfl, rfl⟩)⟩

private theorem transfers_not_loops : ¬ transfers.Loops g a := by
  intro hloops
  obtain ⟨es, hne, hwalk, hes⟩ := hloops
  -- Each flow has one request, which does not lead back.
  have honce : ∀ e ∈ es, ∀ e' ∈ es, e.dstActor ≠ e'.srcActor := by
    intro e he e' he'
    obtain ⟨r, i, hr, hflow, rfl⟩ := hes e he
    obtain ⟨r', i', hr', hflow', rfl⟩ := hes e' he'
    rw [transfers_sent] at hr hr'
    rcases hr with ⟨rfl, rfl⟩ | ⟨rfl, rfl⟩ <;> rcases hr' with ⟨rfl, rfl⟩ | ⟨rfl, rfl⟩
    · decide
    · exact absurd (hflow.trans hflow'.symm) (by decide)
    · exact absurd (hflow.trans hflow'.symm) (by decide)
    · decide
  cases es with
  | nil => exact hne rfl
  | cons e =>
    cases hwalk.dst_eq_or mem_cons_self with
    | inl hend => exact honce e mem_cons_self e mem_cons_self (hend.trans hwalk.1.symm)
    | inr hnext =>
      obtain ⟨e', he', heq⟩ := hnext
      exact honce e mem_cons_self e' he' heq

/-- The flow `g` holds the account `a`, which has called `b`, which has called `a` back.  The flow `f` holds
`c` and waits for `a`. -/
private def callback : BusyInfo where
  actorHandling := (((GoMap.empty.set "f1" (request "c" "" "f")).set "g1" (request "a" "" "g")).set "g2"
    (request "b" "" "g")).set "g3" (request "a" "" "g")
  actorSent := [("f2", request "a" "f1" "f"), ("g2", request "b" "g1" "g"),
    ("g3", request "a" "g2" "g")]
  keys := by decide

private theorem callback_handles : callback.Handles id f a ↔
    (id = "f1" ∧ f = "f" ∧ a = ⟨"Account", "c"⟩) ∨ (id = "g1" ∧ f = "g" ∧ a = ⟨"Account", "a"⟩) ∨
      (id = "g2" ∧ f = "g" ∧ a = ⟨"Account", "b"⟩) ∨ (id = "g3" ∧ f = "g" ∧ a = ⟨"Account", "a"⟩) := by
  unfold Handles callback
  simp only [GoMap.get?_set, GoMap.get?_empty]
  by_cases h3 : id = "g3"
  · simp [h3, request, eq_comm]
  by_cases h2 : id = "g2"
  · simp [h2, request, eq_comm]
  by_cases h1 : id = "g1"
  · simp [h1, request, eq_comm]
  · by_cases hf : id = "f1"
    · simp [hf, request, eq_comm]
    · simp [hf, h1, h2, h3]

private theorem callback_sent : callback.sent id = some i ↔
    (id = "f2" ∧ i = request "a" "f1" "f") ∨ (id = "g2" ∧ i = request "b" "g1" "g") ∨
      (id = "g3" ∧ i = request "a" "g2" "g") := by
  rw [sent_eq_some]
  simp [callback]

private theorem callback_consistent : callback.Consistent where
  one_flow := by
    intro f g a hf hg
    obtain ⟨id, hf⟩ := hf
    obtain ⟨id', hg⟩ := hg
    rw [callback_handles] at hf hg
    grind
  same := by
    intro id i f a hsent hhandles
    rw [callback_sent] at hsent
    rw [callback_handles] at hhandles
    grind [request]
  sent_ne := by
    intro id i hsent
    rw [callback_sent] at hsent
    grind [request, Actor.empty]
  handled_ne := by
    intro f a hholds
    obtain ⟨id, hholds⟩ := hholds
    rw [callback_handles] at hholds
    grind [Actor.empty]
  nested := by
    intro f
    have hsent := fun id i => @callback_sent id i
    have hhandles := fun id f a => @callback_handles id f a
    by_cases hf : f = "f"
    · subst hf
      refine ⟨["f1", "f2"], by decide, ?_, ?_, by grind [request], by grind⟩
      · intro r hr
        cases hr
        exact .inl ⟨by decide, _, (hhandles ..).mpr (.inl ⟨rfl, rfl, rfl⟩)⟩
      · refine isChain_pair.mpr ⟨⟨_, (hhandles ..).mpr (.inl ⟨rfl, rfl, rfl⟩)⟩, ?_⟩
        exact ⟨_, rfl, rfl, rfl⟩
    by_cases hg : f = "g"
    · subst hg
      refine ⟨["g1", "g2", "g3"], by decide, ?_, ?_, by grind [request], by grind⟩
      · intro r hr
        cases hr
        exact .inl ⟨by decide, _, (hhandles ..).mpr (.inr (.inl ⟨rfl, rfl, rfl⟩))⟩
      have hfirst : callback.Calls "g" "g1" "g2" :=
        ⟨⟨_, (hhandles ..).mpr (.inr (.inl ⟨rfl, rfl, rfl⟩))⟩, _, rfl, rfl, rfl⟩
      have hsecond : callback.Calls "g" "g2" "g3" :=
        ⟨⟨_, (hhandles ..).mpr (.inr (.inr (.inl ⟨rfl, rfl, rfl⟩)))⟩, _, rfl, rfl, rfl⟩
      exact isChain_cons_cons.mpr ⟨hfirst, isChain_pair.mpr hsecond⟩
    · refine ⟨[], nodup_nil, ?_, .nil, by grind [request], by grind⟩
      exact fun r hr => absurd hr (Option.not_mem_none r)

/-- Only the flow `f` waits. -/
private theorem callback_waits (hw : (waitGraph callback_consistent).Waits w) :
    w = sentEdge callback "f2" (request "a" "f1" "f") := by
  obtain ⟨id, i, heq, hsent, hflow, hlast⟩ := last_of_waits callback_consistent hw
  have hnot : ¬ callback.Holds w.req.callStack w.dstActor := hw.2
  rw [callback_sent] at hsent
  rcases hsent with ⟨rfl, rfl⟩ | ⟨rfl, rfl⟩ | ⟨rfl, rfl⟩
  · exact heq
  · exact absurd rfl (hlast "g3" _ rfl)
  · rw [heq] at hnot
    exact absurd ⟨"g1", callback_handles.mpr (.inr (.inl ⟨rfl, rfl, rfl⟩))⟩ hnot

/-- A path that the search returns in one order. -/
private theorem exists_report (h : checkDeadlock b (fun _ edges => edges) ≠ some []) :
    ∃ p, checkDeadlock b (fun _ edges => edges) = some p ∧ p ≠ [] := by
  have hends : ∃ p, checkDeadlock b (fun _ edges => edges) = some p :=
    checkDeadlock_ends fun _ _ => .refl _
  obtain ⟨p, hp⟩ := hends
  refine ⟨p, hp, ?_⟩
  intro hnil
  rw [hnil] at hp
  exact h hp

/-! ## What the search says about deadlocks -/

/-- Every report shows a deadlock, in any order of the maps, exactly if no flow waits at an actor to which
the calls of the flow that holds it have come back. -/
theorem reports_sound_iff (h : b.Consistent) :
    (∀ order : List Edge → List Edge → List Edge, (∀ path edges, (order path edges).Perm edges) →
      ∀ p, checkDeadlock b order = some p → p ≠ [] → ∃ f fs, b.Deadlock (· ∈ p) f fs) ↔
      ∀ f g id i, f ≠ g → b.Last f id i → b.Holds g i.actor → ¬ b.Loops g i.actor := by
  constructor
  · intro hsound f g id i hfg hlast hholds hloops
    obtain ⟨es, hne, hwalk, hes⟩ := hloops
    have hwaits := waits_of_last h hfg hlast hholds
    have hedges : ∀ e ∈ es, (waitGraph h).edge e ∧ (waitGraph h).task e = g := by
      intro e he
      obtain ⟨r, j, hr, hflow, rfl⟩ := hes e he
      exact ⟨⟨mem_edges.mpr (.inr ⟨r, j, hr, rfl⟩), h.sent_ne r j hr⟩, hflow⟩
    obtain ⟨before, cycle, l, hreported, hnone⟩ :=
      WaitGraph.exists_reported_of_loop hwaits hholds hwalk hne hedges
    -- In the order that follows this walk, only its first edge waits.
    obtain ⟨f', fs, hdeadlock⟩ := hsound _ (follow_perm _) _
      (checkDeadlock_follow (reports_of_reported h hreported)) (List.cons_ne_nil _ _)
    obtain ⟨w, w', hw, hw', hwaits, hwaits', hne⟩ := ((deadlock_iff h).mpr hdeadlock).two_waits
    have honly : ∀ x ∈ sentEdge b id i :: (cycle ++ [l]), (waitGraph h).Waits x →
        x = sentEdge b id i := by
      intro x hx hwaits
      cases List.mem_cons.mp hx with
      | inl heq => exact heq
      | inr hx => exact absurd hwaits (hnone x hx)
    exact hne ((honly w hw hwaits).trans (honly w' hw' hwaits').symm)
  · intro hcond order horder p hp hne
    obtain ⟨path, hreports⟩ := (checkDeadlock_eq_some horder hp).1 hne
    obtain ⟨before, e, cycle, l, rfl, hreported⟩ := reported_of_reports h hreports
    cases hreported.cases with
    | inl hdeadlock =>
      obtain ⟨f, fs, hdeadlock⟩ := hdeadlock
      refine ⟨f, fs, hdeadlock.nonempty, hdeadlock.nodup, ?_⟩
      refine ((deadlock_iff h).mp hdeadlock).cycle.imp ?_
      intro f g hwaits
      obtain ⟨hfg, id, i, hamong, hrest⟩ := hwaits
      exact ⟨hfg, id, i, List.mem_cons_of_mem e hamong, hrest⟩
    | inr hloop =>
      obtain ⟨hwaits, hholds, htasks⟩ := hloop
      obtain ⟨id, i, heq, hlast⟩ := last_of_waits h hwaits
      have hclosed := hreported.closed
      rw [heq] at hclosed hholds
      refine absurd ⟨cycle ++ [l], by simp, hclosed, ?_⟩
        (hcond _ _ id i hreported.tasks hlast hholds)
      intro c hc
      have hedge : ∀ c ∈ cycle ++ [l], (waitGraph h).edge c := fun c hc =>
        hreported.edges c (List.mem_append_right _ (List.mem_cons_of_mem e hc))
      have hheld : b.Holds c.req.callStack c.srcActor := WaitGraph.holds_of_walk hreported.closed
        ((waitGraph h).dst_ne_start hwaits.1) hedge hc
      cases mem_edges.mp (hedge c hc).1 with
      | inl hroot =>
        obtain ⟨r, j, -, -, rfl⟩ := hroot
        exact absurd rfl (h.handled_ne _ _ hheld)
      | inr hsent =>
        obtain ⟨r, j, hr, rfl⟩ := hsent
        exact ⟨r, j, hr, htasks _ hc, rfl⟩

/-- The report of the two transfers shows their deadlock. -/
theorem transfers_report_sound : ∃ p, checkDeadlock transfers (fun _ edges => edges) = some p ∧
    ∃ f fs, transfers.Deadlock (· ∈ p) f fs := by
  obtain ⟨p, hp, hne⟩ := exists_report (b := transfers) (by decide +kernel)
  exact ⟨p, hp, (reports_sound_iff transfers_consistent).mpr
    (fun _ _ _ _ _ _ _ => transfers_not_loops) _ (fun _ _ => .refl _) p hp hne⟩

/-- The flow `f` waits for `a`, and nobody waits for `f`. -/
theorem callback_reported : callback.Consistent ∧
    (∃ p, checkDeadlock callback (fun _ edges => edges) = some p ∧ p ≠ []) ∧
      ¬ ∃ f fs, callback.Deadlock (fun _ => True) f fs := by
  refine ⟨callback_consistent, exists_report (by decide +kernel), ?_⟩
  intro hdeadlock
  obtain ⟨f, fs, hdeadlock⟩ := hdeadlock
  obtain ⟨w, w', -, -, hw, hw', hne⟩ := ((deadlock_iff callback_consistent).mpr hdeadlock).two_waits
  exact hne ((callback_waits hw).trans (callback_waits hw').symm)

/-- Every deadlock is reported, in any order of the maps. -/
theorem deadlock_reported (h : b.Consistent) {f : String} {fs : List String}
    (hdeadlock : b.Deadlock (fun _ => True) f fs) {order : List Edge → List Edge → List Edge}
    (horder : ∀ path edges, (order path edges).Perm edges) :
    ∃ p, checkDeadlock b order = some p ∧ p ≠ [] := by
  obtain ⟨before, e, cycle, l, hreported⟩ := WaitGraph.exists_reported ((deadlock_iff h).mpr hdeadlock)
  obtain ⟨p, hp⟩ := checkDeadlock_ends (b := b) horder
  exact ⟨p, hp, (checkDeadlock_eq_some horder hp).2 ⟨_, _, reports_of_reported h hreported⟩⟩

/-- The deadlock of the two transfers. -/
theorem transfers_reported :
    ∃ p, checkDeadlock transfers (fun _ edges => edges.reverse) = some p ∧ p ≠ [] :=
  deadlock_reported transfers_consistent transfers_deadlock fun _ edges => edges.reverse_perm

end BusyInfo

end Kar.Debugger
