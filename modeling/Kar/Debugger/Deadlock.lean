import Mathlib.Data.List.Induction
import Mathlib.Data.List.Perm.Subperm
import Kar.Lib.GoMap
import Kar.Lib.Walk

/-!
# The search for deadlocks

`makeDeadlockGraph`, `checkDeadlockCycles` and `checkDeadlock` of `core/cmd/kar-debugger/kar-debugger.go`.

The debugger has a snapshot of the requests that actors are handling and of those that were sent and not
answered.  A request that was sent is an edge from the actor that handles its parent to the actor that it
is for, and the first requests of the flows are edges from the empty actor.  The search follows the edges
from there.  The flag `IsVisited` of an actor is reset when the search leaves it, so every simple walk is
tried, in the order in which Go visits the maps, until one is reported (`checkDeadlockCycles_ok`).
-/

namespace Kar.Debugger

open Kar.Lib List

/-! ## The snapshot -/

/-- The struct `actorJson_t`. -/
structure Actor where
  actorType : String
  actorId : String
  deriving DecidableEq, Repr

/-- The zero value, which stands for the outside. -/
def Actor.empty : Actor := ⟨"", ""⟩

/-- The struct `actorSentInfo_t`. -/
structure ActorSentInfo where
  actor : Actor
  parentId : String
  requestValue : String
  flowId : String
  deriving DecidableEq, Repr

/-- The struct `listBusyInfo_t`.  The map `ActorSent` is a list here, since the code ranges over it. -/
structure BusyInfo where
  actorHandling : GoMap String ActorSentInfo
  actorSent : List (String × ActorSentInfo)
  keys : (actorSent.map Prod.fst).Nodup

namespace BusyInfo

variable (b : BusyInfo)

/-- `ActorSent[id]` -/
def sent (id : String) : Option ActorSentInfo :=
  (b.actorSent.find? fun r => decide (r.1 = id)).map Prod.snd

/-- `ActorHandling[id]`, with the zero value for a request that is not handled. -/
def handling (id : String) : ActorSentInfo := b.actorHandling.getD id ⟨.empty, "", "", ""⟩

theorem sent_eq_some {id : String} {i : ActorSentInfo} :
    b.sent id = some i ↔ (id, i) ∈ b.actorSent := by
  unfold sent
  constructor
  · intro h
    obtain ⟨r, hfind, rfl⟩ := Option.map_eq_some_iff.mp h
    have hid := find?_some hfind
    rw [decide_eq_true_eq] at hid
    rw [← hid]
    exact mem_of_find?_eq_some hfind
  intro h
  cases hfind : b.actorSent.find? fun r => decide (r.1 = id) with
  | none =>
    have hnone := find?_eq_none.mp hfind (id, i) h
    simp at hnone
  | some =>
    have hid := find?_some hfind
    rw [decide_eq_true_eq] at hid
    rw [inj_on_of_nodup_map b.keys (mem_of_find?_eq_some hfind) h hid]
    rfl

end BusyInfo

/-! ## The graph -/

/-- The struct `request_t`.  The call stack is the flow of the request. -/
structure Request where
  requestId : String
  callStack : String
  requestValue : String
  deriving DecidableEq, Repr

/-- The struct `edge_t`. -/
structure Edge where
  srcActor : Actor
  dstActor : Actor
  req : Request
  parentValue : String
  deriving DecidableEq, Repr

/-- The type `graph_t`: the map `Edges` of each actor, which has one edge for a request. -/
abbrev Graph := Actor → List Edge

/-- `Edges[e.Req] = e` -/
def setEdge : List Edge → Edge → List Edge
  | [], e => [e]
  | x :: edges, e => if x.req = e.req then e :: edges else x :: setEdge edges e

def addEdge (g : Graph) (e : Edge) : Graph := Function.update g e.srcActor (setEdge (g e.srcActor) e)

/-- The edge to the actor of a root request, for a request `info` of it. -/
def rootEdge (b : BusyInfo) (info : ActorSentInfo) : Edge where
  srcActor := .empty
  dstActor := (b.handling info.parentId).actor
  req := ⟨info.parentId, info.flowId, (b.handling info.parentId).requestValue⟩
  parentValue := ""

/-- The edge of a request that was sent. -/
def sentEdge (b : BusyInfo) (id : String) (info : ActorSentInfo) : Edge where
  srcActor := (b.handling info.parentId).actor
  dstActor := info.actor
  req := ⟨id, info.flowId, info.requestValue⟩
  parentValue := (b.handling info.parentId).requestValue

def makeDeadlockGraph (b : BusyInfo) : Graph :=
  let graph := b.actorSent.foldl (fun g r =>
    -- The parent is a root request.
    if b.sent r.2.parentId = none then addEdge g (rootEdge b r.2) else g) fun _ => []
  b.actorSent.foldl (fun g r => addEdge g (sentEdge b r.1 r.2)) graph

/-! ## The search -/

/-- The search has come to a visited actor. -/
def revisit (a : Actor) (path : List Edge) : Bool × List Edge :=
  match path.dropWhile fun edge => decide (edge.dstActor ≠ a) with
  | edge :: rest =>
    -- With the same call stack it is reentrancy, so no deadlock.
    if some edge.req.callStack = path.getLast?.map fun e => e.req.callStack then (false, [])
    else (true, edge :: rest)
  -- Technically not needed.
  | [] => (true, path)

/-- The loop over the edges of an actor, which ends at the first one that is reported. -/
def tryEdges (check : Edge → Option (Bool × List Edge)) : List Edge → Option (Bool × List Edge)
  | [] => some (false, [])
  | edge :: edges =>
    match check edge with
    | some (false, _) => tryEdges check edges
    | r => r

/-- `checkDeadlockCycles`.  The actors with the flag `IsVisited` are `visited`.  The edges of an actor are
visited in the order that `order` gives when the search comes along a path.  The result is `none` when the
fuel is used up. -/
def checkDeadlockCycles (g : Graph) (order : List Edge → List Edge → List Edge) :
    Nat → List Actor → Actor → List Edge → Option (Bool × List Edge)
  | 0, _, _, _ => none
  | fuel + 1, visited, a, path =>
    if a ∈ visited then some (revisit a path)
    else tryEdges
      (fun edge => checkDeadlockCycles g order fuel (a :: visited) edge.dstActor (path ++ [edge]))
      (order path (g a))

/-- `checkDeadlock`.  The search leaves the empty actor, and an actor that handles the parent of a
request, once on a path. -/
def checkDeadlock (b : BusyInfo) (order : List Edge → List Edge → List Edge) : Option (List Edge) :=
  (checkDeadlockCycles (makeDeadlockGraph b) order (b.actorSent.length + 2) [] .empty []).map Prod.snd

/-! ## The edges of the graph -/

theorem mem_setEdge (h : ∀ x ∈ edges, x.req = e.req → x = e) :
    y ∈ setEdge edges e ↔ y ∈ edges ∨ y = e := by
  induction edges with
  | nil => simp [setEdge]
  | cons x _ ih =>
    rw [setEdge]
    split
    · rename_i hreq
      rw [h x mem_cons_self hreq, mem_cons]
      tauto
    · rw [mem_cons, mem_cons, ih fun x hx => h x (mem_cons_of_mem _ hx), or_assoc]

/-- Edges are added one after the other. -/
theorem mem_foldl_addEdge {es : List Edge}
    (h : ∀ x ∈ es, ∀ y ∈ es, x.srcActor = y.srcActor → x.req = y.req → x = y) :
    ∀ e, e ∈ es.foldl addEdge (fun _ => []) a ↔ e ∈ es ∧ e.srcActor = a := by
  induction es using reverseRecOn with
  | nil => simp
  | append_singleton _ x ih =>
    intro e
    have hih := ih fun y hy z hz =>
      h y (mem_append_left _ hy) z (mem_append_left _ hz)
    rw [foldl_append, foldl_cons, foldl_nil, addEdge, mem_append, mem_singleton]
    by_cases ha : a = x.srcActor
    · subst ha
      rw [Function.update_self, mem_setEdge ?_, hih]
      · constructor
        · intro hmem
          cases hmem with
          | inl hmem => exact ⟨.inl hmem.1, hmem.2⟩
          | inr heq => exact ⟨.inr heq, by rw [heq]⟩
        · intro hmem
          cases hmem.1 with
          | inl he => exact .inl ⟨he, hmem.2⟩
          | inr heq => exact .inr heq
      · intro y hy hreq
        obtain ⟨hy, hsrc⟩ := (hih y).mp hy
        exact h y (mem_append_left _ hy) x (mem_append_right _ (mem_singleton.mpr rfl)) hsrc hreq
    · rw [Function.update_of_ne ha, hih]
      constructor
      · exact fun hmem => ⟨.inl hmem.1, hmem.2⟩
      intro hmem
      cases hmem.1 with
      | inl he => exact ⟨he, hmem.2⟩
      | inr heq =>
        rw [heq] at hmem
        exact absurd hmem.2.symm ha

/-- The edges, in the order in which the two loops add them. -/
def edges (b : BusyInfo) : List Edge :=
  ((b.actorSent.filter fun r => decide (b.sent r.2.parentId = none)).map fun r => rootEdge b r.2) ++
    b.actorSent.map fun r => sentEdge b r.1 r.2

theorem makeDeadlockGraph_eq :
    makeDeadlockGraph b = (edges b).foldl addEdge fun _ => [] := by
  rw [edges, foldl_append, foldl_map, foldl_map, foldl_filter]
  simp only [decide_eq_true_eq]
  rfl

theorem mem_edges : e ∈ edges b ↔
    (∃ id i, b.sent id = some i ∧ b.sent i.parentId = none ∧ e = rootEdge b i) ∨
      ∃ id i, b.sent id = some i ∧ e = sentEdge b id i := by
  simp only [edges, mem_append, mem_map, mem_filter, decide_eq_true_eq, Prod.exists, b.sent_eq_some]
  constructor
  · intro h
    cases h with
    | inl h =>
      obtain ⟨id, i, ⟨hsent, hroot⟩, rfl⟩ := h
      exact .inl ⟨id, i, hsent, hroot, rfl⟩
    | inr h =>
      obtain ⟨id, i, hsent, rfl⟩ := h
      exact .inr ⟨id, i, hsent, rfl⟩
  intro h
  cases h with
  | inl h =>
    obtain ⟨id, i, hsent, hroot, rfl⟩ := h
    exact .inl ⟨id, i, ⟨hsent, hroot⟩, rfl⟩
  | inr h =>
    obtain ⟨id, i, hsent, rfl⟩ := h
    exact .inr ⟨id, i, hsent, rfl⟩

/-- An edge is given by its request. -/
theorem eq_of_req (hx : x ∈ edges b) (hy : y ∈ edges b) (hreq : x.req = y.req) : x = y := by
  -- The request of an edge to a root was not sent.
  have hne : ∀ {id i j}, b.sent i.parentId = none → b.sent id = some j →
      (rootEdge b i).req ≠ (sentEdge b id j).req := by
    intro id i j hroot hsent heq
    have hid : i.parentId = id := congrArg Request.requestId heq
    rw [hid, hsent] at hroot
    exact Option.some_ne_none _ hroot
  cases mem_edges.mp hx with
  | inl hx =>
    obtain ⟨id, i, -, hroot, rfl⟩ := hx
    cases mem_edges.mp hy with
    | inl hy =>
      obtain ⟨id', i', -, -, rfl⟩ := hy
      have hparent : i.parentId = i'.parentId := congrArg Request.requestId hreq
      have hflow : i.flowId = i'.flowId := congrArg Request.callStack hreq
      rw [rootEdge, rootEdge, hparent, hflow]
    | inr hy =>
      obtain ⟨id', i', hsent', rfl⟩ := hy
      exact absurd hreq (hne hroot hsent')
  | inr hx =>
    obtain ⟨id, i, hsent, rfl⟩ := hx
    cases mem_edges.mp hy with
    | inl hy =>
      obtain ⟨id', i', -, hroot', rfl⟩ := hy
      exact absurd hreq.symm (hne hroot' hsent)
    | inr hy =>
      obtain ⟨id', i', hsent', rfl⟩ := hy
      have hid : id = id' := congrArg Request.requestId hreq
      rw [hid, hsent', Option.some.injEq] at hsent
      rw [hid, hsent]

theorem mem_makeDeadlockGraph :
    e ∈ makeDeadlockGraph b a ↔ e ∈ edges b ∧ e.srcActor = a := by
  rw [makeDeadlockGraph_eq]
  refine mem_foldl_addEdge ?_ e
  intro x hx y hy _ hreq
  exact eq_of_req hx hy hreq

/-! ## The walks of the search -/

/-- A walk from the empty actor that leaves no actor twice. -/
structure Explored (g : Graph) (a : Actor) (path : List Edge) : Prop where
  walk : Walk Edge.srcActor Edge.dstActor .empty path a
  edges : ∀ e ∈ path, e ∈ g e.srcActor
  nodup : (path.map Edge.srcActor).Nodup

/-- The walk has come back to an actor that it left, and is reported as `p`. -/
def Reports (g : Graph) (path p : List Edge) : Prop :=
  ∃ a, Explored g a path ∧ a ∈ path.map Edge.srcActor ∧ revisit a path = (true, p)

/-- The edges of an actor leave it. -/
def Graph.Proper (g : Graph) : Prop := ∀ a, ∀ e ∈ g a, e.srcActor = a

section Search

variable {g : Graph} {order : List Edge → List Edge → List Edge}

theorem Explored.snoc (h : Explored g a path)
    (hg : g.Proper) (ha : a ∉ path.map Edge.srcActor) (he : e ∈ g a) :
    Explored g e.dstActor (path ++ [e]) := by
  have hsrc := hg a e he
  refine ⟨h.walk.append ⟨hsrc, rfl⟩, ?_, ?_⟩
  · intro f hf
    cases mem_append.mp hf with
    | inl hf => exact h.edges f hf
    | inr hf =>
      rw [mem_singleton.mp hf, hsrc]
      exact he
  · rw [map_append, map_singleton, hsrc, nodup_append]
    refine ⟨h.nodup, nodup_singleton a, ?_⟩
    intro x hx y hy heq
    rw [heq, mem_singleton.mp hy] at hx
    exact ha hx

theorem Graph.Proper.visited_snoc (hg : g.Proper)
    (h : ∀ x, x ∈ visited ↔ x ∈ path.map Edge.srcActor) (he : e ∈ g a) (x : Actor) :
    x ∈ a :: visited ↔ x ∈ (path ++ [e]).map Edge.srcActor := by
  rw [mem_cons, h, map_append, map_singleton, hg a e he, mem_append, mem_singleton, or_comm]

/-- A walk that has come back does not go on. -/
theorem Explored.eq_nil_of_back {b : Actor} (h : Explored g a path)
    (ha : a ∈ path.map Edge.srcActor) (hext : Explored g b (path ++ ext)) : ext = [] := by
  cases ext with
  | nil => rfl
  | cons =>
    obtain ⟨c, hpath, hrest⟩ := walk_append.mp hext.walk
    rw [← h.walk.eq_end hpath] at hrest
    have hnodup := hext.nodup
    rw [map_append, map_cons, nodup_append] at hnodup
    exact absurd hrest.1.symm (hnodup.2.2 a ha _ mem_cons_self)

/-- The next edge of a walk that goes on. -/
theorem Explored.mem_of_cons {b : Actor} (h : Explored g a path)
    (hext : Explored g b (path ++ e :: ext)) : e ∈ g a := by
  obtain ⟨c, hpath, hrest⟩ := walk_append.mp hext.walk
  rw [h.walk.eq_end hpath, ← hrest.1]
  exact hext.edges e (mem_append_right _ mem_cons_self)

theorem revisit_eq :
    revisit a path = (false, []) ∨ ∃ p, revisit a path = (true, p) := by
  unfold revisit
  cases path.dropWhile fun edge => decide (edge.dstActor ≠ a) with
  | nil => exact .inr ⟨path, rfl⟩
  | cons edge rest =>
    simp only
    split
    · exact .inl rfl
    · exact .inr ⟨edge :: rest, rfl⟩

theorem tryEdges_true {edges : List Edge}
    (h : tryEdges check edges = some (true, p)) : ∃ e ∈ edges, check e = some (true, p) := by
  induction edges with
  | nil => simp [tryEdges] at h
  | cons e edges ih =>
    have hlater : tryEdges check edges = some (true, p) →
        ∃ f ∈ e :: edges, check f = some (true, p) := by
      intro h
      obtain ⟨f, hf, hcheck⟩ := ih h
      exact ⟨f, mem_cons_of_mem e hf, hcheck⟩
    rw [tryEdges] at h
    cases hcheck : check e with
    | none => simp [hcheck] at h
    | some r =>
      obtain ⟨found, q⟩ := r
      cases found with
      | false =>
        simp only [hcheck] at h
        exact hlater h
      | true =>
        simp only [hcheck] at h
        exact ⟨e, mem_cons_self, hcheck.trans h⟩

theorem tryEdges_false {edges : List Edge} (h : tryEdges check edges = some (false, p)) :
    p = [] ∧ ∀ e ∈ edges, ∃ q, check e = some (false, q) := by
  induction edges with
  | nil =>
    simp only [tryEdges, Option.some.injEq, Prod.mk.injEq, true_and] at h
    exact ⟨h.symm, fun e he => absurd he not_mem_nil⟩
  | cons e _ ih =>
    rw [tryEdges] at h
    cases hcheck : check e with
    | none => simp [hcheck] at h
    | some r =>
      obtain ⟨found, q⟩ := r
      cases found with
      | false =>
        simp only [hcheck] at h
        refine ⟨(ih h).1, ?_⟩
        intro f hf
        cases mem_cons.mp hf with
        | inl heq =>
          rw [heq]
          exact ⟨q, hcheck⟩
        | inr hf => exact (ih h).2 f hf
      | true => simp [hcheck] at h

theorem tryEdges_ne_none {edges : List Edge}
    (h : ∀ e ∈ edges, check e ≠ none) : tryEdges check edges ≠ none := by
  induction edges with
  | nil => exact Option.some_ne_none _
  | cons e _ ih =>
    rw [tryEdges]
    cases hcheck : check e with
    | none => exact absurd hcheck (h e mem_cons_self)
    | some r =>
      obtain ⟨found, q⟩ := r
      cases found with
      | false => exact ih fun f hf => h f (mem_cons_of_mem e hf)
      | true => exact Option.some_ne_none _

variable (hg : g.Proper) (horder : ∀ path edges, (order path edges).Perm edges)

include hg horder

/-- A result of the search is a walk that is reported, or there is none. -/
theorem checkDeadlockCycles_ok
    (h : Explored g a path) (hvisited : ∀ x, x ∈ visited ↔ x ∈ path.map Edge.srcActor) {found : Bool}
    (hr : checkDeadlockCycles g order fuel visited a path = some (found, p)) :
    (found = true → ∃ ext, Reports g (path ++ ext) p) ∧
      (found = false → p = [] ∧ ∀ ext q, ¬ Reports g (path ++ ext) q) := by
  induction fuel generalizing visited a path found p with
  | zero => exact absurd hr.symm (Option.some_ne_none _)
  | succ _ ih =>
    rw [checkDeadlockCycles] at hr
    by_cases ha : a ∈ visited
    · rw [if_pos ha, Option.some.injEq] at hr
      rw [hvisited] at ha
      refine ⟨?_, ?_⟩
      · intro hfound
        rw [hfound] at hr
        exact ⟨[], a, by rwa [append_nil], by rwa [append_nil], by rwa [append_nil]⟩
      intro hfound
      rw [hfound] at hr
      refine ⟨?_, ?_⟩
      · cases revisit_eq with
        | inl hfalse => exact (Prod.mk.inj (hr.symm.trans hfalse)).2
        | inr htrue =>
          obtain ⟨q, htrue⟩ := htrue
          exact absurd (Prod.mk.inj (hr.symm.trans htrue)).1 Bool.false_ne_true
      · intro ext q hreports
        obtain ⟨b, hext, -, htrue⟩ := hreports
        have hnil := h.eq_nil_of_back ha hext
        rw [hnil, append_nil] at hext htrue
        rw [← h.walk.eq_end hext.walk, hr] at htrue
        exact Bool.false_ne_true (Prod.mk.inj htrue).1
    · rw [if_neg ha] at hr
      rw [hvisited] at ha
      -- An edge of the actor leads to one more step of the walk.
      have hnext : ∀ e ∈ g a, Explored g e.dstActor (path ++ [e]) ∧
          ∀ x, x ∈ a :: visited ↔ x ∈ (path ++ [e]).map Edge.srcActor :=
        fun e he => ⟨h.snoc hg ha he, hg.visited_snoc hvisited he⟩
      refine ⟨?_, ?_⟩
      · intro hfound
        rw [hfound] at hr
        obtain ⟨e, he, hcheck⟩ := tryEdges_true hr
        have he' := (horder path (g a)).subset he
        obtain ⟨ext, hreports⟩ := (ih (hnext e he').1 (hnext e he').2 hcheck).1 rfl
        rw [append_assoc] at hreports
        exact ⟨[e] ++ ext, hreports⟩
      intro hfound
      rw [hfound] at hr
      obtain ⟨hp, hall⟩ := tryEdges_false hr
      refine ⟨hp, ?_⟩
      intro ext q hreports
      cases ext with
      | nil =>
        obtain ⟨b, hext, hback, -⟩ := hreports
        rw [append_nil] at hext hback
        rw [← h.walk.eq_end hext.walk] at hback
        exact ha hback
      | cons e ext =>
        obtain ⟨b, hext, -⟩ := id hreports
        have he := h.mem_of_cons hext
        obtain ⟨q', hcheck⟩ := hall e ((horder path (g a)).symm.subset he)
        refine ((ih (hnext e he).1 (hnext e he).2 hcheck).2 rfl).2 ext q ?_
        rw [append_assoc]
        exact hreports

/-- The fuel is enough when there is more of it than actors that the walk can still leave. -/
theorem checkDeadlockCycles_ne_none {nodes : List Actor} (hnodes : ∀ a, ∀ e ∈ g a, e.srcActor ∈ nodes)
    (h : Explored g a path) (hvisited : ∀ x, x ∈ visited ↔ x ∈ path.map Edge.srcActor)
    (hfuel : nodes.length < fuel + path.length) :
    checkDeadlockCycles g order fuel visited a path ≠ none := by
  induction fuel generalizing visited a path with
  | zero =>
    have hsub : path.map Edge.srcActor ⊆ nodes := by
      intro x hx
      obtain ⟨e, he, rfl⟩ := mem_map.mp hx
      exact hnodes _ e (h.edges e he)
    have hle := (subperm_of_subset h.nodup hsub).length_le
    rw [length_map] at hle
    omega
  | succ _ ih =>
    rw [checkDeadlockCycles]
    split
    · exact Option.some_ne_none _
    rename_i ha
    rw [hvisited] at ha
    apply tryEdges_ne_none
    intro e he
    have he' := (horder path (g a)).subset he
    refine ih (h.snoc hg ha he') (hg.visited_snoc hvisited he') ?_
    rw [length_append, length_singleton]
    omega

omit horder

/-- A search that always takes the next edge of a walk that is reported finds this walk. -/
theorem checkDeadlockCycles_follow {target : List Edge} (htarget : Reports g target p)
    (hfollow : ∀ path e rest edges, target = path ++ e :: rest → e ∈ edges →
      ∃ others, order path edges = e :: others) (h : Explored g a path)
    (hvisited : ∀ x, x ∈ visited ↔ x ∈ path.map Edge.srcActor) (hsplit : target = path ++ ext)
    (hfuel : ext.length < fuel) :
    checkDeadlockCycles g order fuel visited a path = some (true, p) := by
  obtain ⟨b, hb, hback, hrevisit⟩ := htarget
  induction ext generalizing fuel visited a path with
  | nil =>
    cases fuel with
    | zero => omega
    | succ =>
      rw [append_nil] at hsplit
      rw [hsplit] at hb hback hrevisit
      rw [← h.walk.eq_end hb.walk] at hback hrevisit
      rw [checkDeadlockCycles, if_pos ((hvisited a).mpr hback), hrevisit]
  | cons e ext ih =>
    cases fuel with
    | zero => omega
    | succ fuel =>
      rw [hsplit] at hb
      have he := h.mem_of_cons hb
      have ha : a ∉ path.map Edge.srcActor := by
        intro ha
        exact cons_ne_nil e ext (h.eq_nil_of_back ha hb)
      obtain ⟨others, horder⟩ := hfollow path e ext (g a) hsplit he
      have hcheck : checkDeadlockCycles g order fuel (a :: visited) e.dstActor (path ++ [e]) =
          some (true, p) := by
        refine ih (h.snoc hg ha he) (hg.visited_snoc hvisited he) ?_ ?_
        · rw [hsplit, append_assoc]
          rfl
        · rw [length_cons] at hfuel
          omega
      rw [checkDeadlockCycles, if_neg (fun hmem => ha ((hvisited a).mp hmem)), horder, tryEdges, hcheck]

end Search

/-! ## What is reported -/

/-- The edge `e` is the first that entered the actor. -/
theorem revisit_append (hbefore : ∀ f ∈ before, f.dstActor ≠ a)
    (he : e.dstActor = a) (hlast : (e :: rest).getLast? = some l) :
    revisit a (before ++ e :: rest) =
      if e.req.callStack = l.req.callStack then (false, []) else (true, e :: rest) := by
  have hdrop : (before ++ e :: rest).dropWhile (fun edge => decide (edge.dstActor ≠ a)) = e :: rest := by
    rw [dropWhile_append_of_pos fun f hf => by simpa using hbefore f hf,
      dropWhile_cons_of_neg (by simpa using he)]
  have hlast' : (before ++ e :: rest).getLast? = some l := by
    rw [getLast?_append, hlast]
    rfl
  rw [revisit, hdrop, hlast']
  simp

/-- The first edge of a walk that enters its end. -/
theorem exists_first {b : Actor} (h : Walk Edge.srcActor Edge.dstActor b path a) (hne : path ≠ []) :
    ∃ before e rest, path = before ++ e :: rest ∧ e.dstActor = a ∧ ∀ f ∈ before, f.dstActor ≠ a := by
  induction path generalizing b with
  | nil => exact absurd rfl hne
  | cons f path ih =>
    by_cases hf : f.dstActor = a
    · exact ⟨[], f, path, rfl, hf, fun g hg => absurd hg not_mem_nil⟩
    have hne' : path ≠ [] := by
      intro hnil
      rw [hnil] at h
      exact hf h.2
    obtain ⟨before, e, rest, hsplit, he, hbefore⟩ := ih h.2 hne'
    refine ⟨f :: before, e, rest, by rw [hsplit]; rfl, he, ?_⟩
    intro g hg
    cases mem_cons.mp hg with
    | inl heq => rwa [heq]
    | inr hg => exact hbefore g hg

/-- A walk that is reported, from the edge that first entered the actor on. -/
theorem reports_iff {g : Graph} : Reports g path p ↔
    ∃ before e cycle l, path = before ++ e :: (cycle ++ [l]) ∧ p = e :: (cycle ++ [l]) ∧ Walk
      Edge.srcActor Edge.dstActor .empty before e.srcActor ∧ Walk Edge.srcActor Edge.dstActor
      e.dstActor (cycle ++ [l]) e.dstActor ∧ (path.map Edge.srcActor).Nodup ∧ (∀ f ∈ path, f ∈ g
      f.srcActor) ∧ e.req.callStack ≠ l.req.callStack := by
  constructor
  · intro h
    obtain ⟨a, hpath, hback, hrevisit⟩ := h
    have hne : path ≠ [] := by
      intro hnil
      rw [hnil] at hback
      exact not_mem_nil hback
    obtain ⟨before, e, rest, hsplit, he, hbefore⟩ := exists_first hpath.walk hne
    obtain ⟨l, hlast⟩ : ∃ l, (e :: rest).getLast? = some l :=
      ⟨_, getLast?_eq_some_getLast (cons_ne_nil e rest)⟩
    have hwalk := hpath.walk
    rw [hsplit] at hwalk
    obtain ⟨c, hwalkBefore, hwalkRest⟩ := walk_append.mp hwalk
    rw [hsplit, revisit_append hbefore he hlast] at hrevisit
    split at hrevisit
    · exact absurd (Prod.mk.inj hrevisit).1 Bool.false_ne_true
    rename_i hflow
    cases eq_nil_or_concat' rest with
    | inl hnil =>
      -- An edge that comes back at once has its own flow.
      rw [hnil, getLast?_singleton, Option.some.injEq] at hlast
      exact absurd (by rw [hlast]) hflow
    | inr hconcat =>
      obtain ⟨cycle, l', hrest⟩ := hconcat
      rw [hrest, ← cons_append, getLast?_concat, Option.some.injEq] at hlast
      rw [hlast] at hrest
      rw [hrest] at hsplit hrevisit hwalkRest
      refine ⟨before, e, cycle, l, hsplit, (Prod.mk.inj hrevisit).2.symm, ?_, ?_, hpath.nodup,
        hpath.edges, hflow⟩
      · rw [hwalkRest.1]
        exact hwalkBefore
      · have hclosed := hwalkRest.2
        rw [he] at hclosed ⊢
        exact hclosed
  · intro h
    obtain ⟨before, e, cycle, l, hsplit, hp, hbefore, hclosed, hnodup, hedges, hflow⟩ := h
    subst hsplit
    have hback : e.dstActor ∈ (cycle ++ [l]).map Edge.srcActor := by
      cases hcycle : cycle ++ [l] with
      | nil => simp at hcycle
      | cons =>
        rw [hcycle] at hclosed
        rw [map_cons, hclosed.1]
        exact mem_cons_self
    rw [map_append, map_cons, nodup_append, nodup_cons] at hnodup
    refine ⟨e.dstActor, ⟨hbefore.append ⟨rfl, hclosed⟩, hedges, ?_⟩, ?_, ?_⟩
    · rw [map_append, map_cons, nodup_append, nodup_cons]
      exact hnodup
    · rw [map_append, map_cons]
      exact mem_append_right _ (mem_cons_of_mem _ hback)
    -- What the edges before `e` enter is left before the cycle.
    have hfirst : ∀ f ∈ before, f.dstActor ≠ e.dstActor := by
      intro f hf heq
      cases hbefore.dst_eq_or hf with
      | inl hend =>
        rw [← hend, heq] at hnodup
        exact hnodup.2.1.1 hback
      | inr hnext =>
        obtain ⟨f', hf', heq'⟩ := hnext
        exact hnodup.2.2 _ (mem_map_of_mem hf') _ (mem_cons_of_mem _ hback) (heq'.symm.trans heq)
    have hlast : (e :: (cycle ++ [l])).getLast? = some l := by
      rw [← cons_append, getLast?_concat]
    rw [revisit_append hfirst rfl hlast, if_neg hflow, hp]

/-! ## The result of the search -/

section Check

theorem proper_makeDeadlockGraph (b : BusyInfo) : (makeDeadlockGraph b).Proper :=
  fun _ _ he => (mem_makeDeadlockGraph.mp he).2

/-- The actors that have edges. -/
def sources (b : BusyInfo) : List Actor :=
  .empty :: b.actorSent.map fun r => (b.handling r.2.parentId).actor

theorem length_sources : (sources b).length = b.actorSent.length + 1 := by
  rw [sources, length_cons, length_map]

theorem mem_sources (a : Actor) : ∀ e ∈ makeDeadlockGraph b a, e.srcActor ∈ sources b := by
  intro e he
  cases mem_edges.mp (mem_makeDeadlockGraph.mp he).1 with
  | inl hroot =>
    obtain ⟨id, i, -, -, rfl⟩ := hroot
    exact mem_cons_self
  | inr hsent =>
    obtain ⟨id, i, hsent, rfl⟩ := hsent
    exact mem_cons_of_mem _ (mem_map.mpr ⟨(id, i), b.sent_eq_some.mp hsent, rfl⟩)

theorem explored_nil : Explored g .empty [] :=
  ⟨rfl, fun _ he => absurd he not_mem_nil, nodup_nil⟩

theorem Explored.length_le (h : Explored (makeDeadlockGraph b) a path) :
    path.length ≤ b.actorSent.length + 1 := by
  have hsub : path.map Edge.srcActor ⊆ sources b := by
    intro x hx
    obtain ⟨e, he, rfl⟩ := mem_map.mp hx
    exact mem_sources _ e (h.edges e he)
  have hle := (subperm_of_subset h.nodup hsub).length_le
  rwa [length_map, length_sources] at hle

/-- The search ends. -/
theorem checkDeadlock_ends (horder : ∀ path edges, (order path edges).Perm edges) :
    ∃ p, checkDeadlock b order = some p := by
  have hne : checkDeadlockCycles (makeDeadlockGraph b) order (b.actorSent.length + 2) [] .empty [] ≠
      none := by
    refine checkDeadlockCycles_ne_none (proper_makeDeadlockGraph b) horder mem_sources
      (explored_nil) (fun x => Iff.rfl) ?_
    rw [length_sources, length_nil]
    omega
  obtain ⟨r, hr⟩ := Option.ne_none_iff_exists'.mp hne
  refine ⟨r.2, ?_⟩
  rw [checkDeadlock, hr]
  rfl

theorem Reports.ne_nil (h : Reports g path p) : p ≠ [] := by
  obtain ⟨before, e, cycle, l, -, rfl, -⟩ := reports_iff.mp h
  exact cons_ne_nil _ _

/-- A path is returned if and only if some walk is reported, and then it is such a walk. -/
theorem checkDeadlock_eq_some (horder : ∀ path edges, (order path edges).Perm edges)
    (h : checkDeadlock b order = some p) :
    (p ≠ [] → ∃ path, Reports (makeDeadlockGraph b) path p) ∧
      ((∃ path q, Reports (makeDeadlockGraph b) path q) → p ≠ []) := by
  obtain ⟨r, hr, hp⟩ := Option.map_eq_some_iff.mp h
  obtain ⟨found, q⟩ := r
  have hok := checkDeadlockCycles_ok (proper_makeDeadlockGraph b) horder (explored_nil)
    (fun x => Iff.rfl) hr
  rw [show q = p from hp] at hok
  cases found with
  | true =>
    obtain ⟨path, hreports⟩ := hok.1 rfl
    exact ⟨fun _ => ⟨path, hreports⟩, fun _ => hreports.ne_nil⟩
  | false =>
    obtain ⟨hnil, hnone⟩ := hok.2 rfl
    refine ⟨fun hne => absurd hnil hne, ?_⟩
    intro hreports
    obtain ⟨path, q, hreports⟩ := hreports
    exact absurd hreports (hnone path q)

/-- An order of the maps that takes the edges of a walk first. -/
def follow (target path edges : List Edge) : List Edge :=
  match (target.drop path.length).head? with
  | some e => if e ∈ edges then e :: edges.erase e else edges
  | none => edges

theorem follow_perm (target path edges : List Edge) : (follow target path edges).Perm edges := by
  unfold follow
  cases (target.drop path.length).head? with
  | none => exact .refl _
  | some =>
    simp only
    split
    · rename_i he
      exact (perm_cons_erase he).symm
    · exact .refl _

/-- Every walk that is reported is returned in some order of the maps. -/
theorem checkDeadlock_follow (h : Reports (makeDeadlockGraph b) path p) :
    checkDeadlock b (follow path) = some p := by
  obtain ⟨a, hexplored, -⟩ := id h
  have hcheck : checkDeadlockCycles (makeDeadlockGraph b) (follow path) (b.actorSent.length + 2) []
      .empty [] = some (true, p) := by
    refine checkDeadlockCycles_follow (proper_makeDeadlockGraph b) h ?_ (explored_nil)
      (fun x => Iff.rfl) rfl ?_
    · intro before e rest edges hsplit he
      refine ⟨edges.erase e, ?_⟩
      rw [follow, hsplit, drop_left, head?_cons]
      exact if_pos he
    · have hle := hexplored.length_le
      omega
  rw [checkDeadlock, hcheck]
  rfl

end Check

end Kar.Debugger
