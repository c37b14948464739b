import Mathlib.Data.List.Chain
import Kar.Lib.Walk

/-!
# Tasks that hold vertices and wait for others

A task makes its way through a graph from the start.  It holds the vertices that it has come to, each
vertex is held by one task at most, and the last edge of a task may lead to a vertex that the task does not
hold: there it waits.  A task can come to a vertex that it holds once more, so its way may have loops.

A deadlock is a cycle of tasks, each of which waits at a vertex that the next one holds.  A search that
follows simple walks from the start can only see that a walk comes back to a vertex, and compare the task
of the edge that entered the vertex first with the task of the edge that comes back.  If they differ, there
is a deadlock on the way back, or the first edge waits at a loop of the other task (`Reported.cases`).  And
if there is a deadlock, then there is such a walk (`exists_reported`).
-/

namespace Kar.Lib

open List

structure WaitGraph (ν ε φ : Type) where
  src : ε → ν
  dst : ε → ν
  task : ε → φ
  start : ν
  edge : ε → Prop
  holds : φ → ν → Prop
  holder_unique : ∀ {f g a}, holds f a → holds g a → f = g
  not_holds_start : ∀ f, ¬ holds f start
  dst_ne_start : ∀ {e}, edge e → dst e ≠ start
  held_src : ∀ {e}, edge e → src e = start ∨ holds (task e) (src e)
  /-- A task has one edge at most to a vertex that it does not hold. -/
  wait_unique : ∀ {e e'}, edge e → edge e' → task e = task e' → ¬ holds (task e) (dst e) →
    ¬ holds (task e') (dst e') → e = e'
  /-- A task has come from the start to what it holds. -/
  reach : ∀ {e a}, edge e → holds (task e) a →
    ∃ es, Walk src dst start es a ∧ ∀ f ∈ es, edge f ∧ task f = task e
  /-- From every vertex that it holds it has gone on to where it waits. -/
  ahead : ∀ {e a}, edge e → ¬ holds (task e) (dst e) → holds (task e) a →
    ∃ es, Walk src dst a es (src e) ∧ ∀ f ∈ es, edge f ∧ task f = task e

namespace WaitGraph

variable (G : WaitGraph ν ε φ)

/-- The task of the edge does not hold the vertex that the edge leads to. -/
def Waits (e : ε) : Prop := G.edge e ∧ ¬ G.holds (G.task e) (G.dst e)

/-- Task `f` waits, with one of the given edges, at a vertex that `g` holds. -/
def WaitsFor (among : ε → Prop) (f g : φ) : Prop :=
  ∃ w, among w ∧ G.Waits w ∧ G.task w = f ∧ G.holds g (G.dst w)

/-- The tasks `f :: fs` wait for each other in a cycle. -/
structure Deadlock (among : ε → Prop) (f : φ) (fs : List φ) : Prop where
  nonempty : fs ≠ []
  nodup : (f :: fs).Nodup
  cycle : (f :: (fs ++ [f])).IsChain (G.WaitsFor among)

/-- A walk that comes back, with its last edge `l`, to the vertex that the edge `e` entered first. -/
structure Reported (before : List ε) (e : ε) (cycle : List ε) (l : ε) : Prop where
  walk : Walk G.src G.dst G.start before (G.src e)
  closed : Walk G.src G.dst (G.dst e) (cycle ++ [l]) (G.dst e)
  nodup : ((before ++ e :: (cycle ++ [l])).map G.src).Nodup
  edges : ∀ f ∈ before ++ e :: (cycle ++ [l]), G.edge f
  tasks : G.task e ≠ G.task l

variable {G}

theorem WaitsFor.ne (h : G.WaitsFor among f g) : f ≠ g := by
  intro heq
  obtain ⟨w, -, hwaits, htask, hholds⟩ := h
  rw [← heq, ← htask] at hholds
  exact hwaits.2 hholds

/-- A walk from another vertex than the start does not leave the start. -/
theorem holds_of_walk (h : Walk G.src G.dst a es b) (ha : a ≠ G.start)
    (hedges : ∀ e ∈ es, G.edge e) (he : e ∈ es) : G.holds (G.task e) (G.src e) := by
  cases G.held_src (hedges e he) with
  | inr hholds => exact hholds
  | inl hstart =>
    cases h.src_eq_or he with
    | inl heq => exact absurd (heq.symm.trans hstart) ha
    | inr hentered =>
      obtain ⟨g, hg, heq⟩ := hentered
      exact absurd (heq.symm.trans hstart) (G.dst_ne_start (hedges g hg))

/-! ## A walk that is reported -/

section Cases

open Classical in
/-- The tasks that wait on a walk to a vertex of `f`, and `f` itself: each waits for the next, and the
first of them holds the beginning of the walk. -/
theorem waiting_chain (h : Walk G.src G.dst a es b) (hedges : ∀ e ∈ es, G.edge e)
    (hheld : ∀ e ∈ es, G.holds (G.task e) (G.src e)) (hf : G.holds f b) :
    (((es.filter fun e => decide (G.Waits e)).map G.task) ++ [f]).IsChain (G.WaitsFor (· ∈ es)) ∧
      ∀ g ∈ (((es.filter fun e => decide (G.Waits e)).map G.task) ++ [f]).head?, G.holds g a := by
  induction es generalizing a with
  | nil =>
    refine ⟨isChain_singleton f, ?_⟩
    intro g hg
    rw [walk_nil] at h
    simp only [filter_nil, map_nil, nil_append, head?_cons, Option.mem_some] at hg
    rw [h, ← hg]
    exact hf
  | cons e es ih =>
    obtain ⟨hchain, hhead⟩ := ih h.2 (fun g hg => hedges g (mem_cons_of_mem e hg))
      fun g hg => hheld g (mem_cons_of_mem e hg)
    have hsrc : G.holds (G.task e) a := by
      rw [← h.1]
      exact hheld e mem_cons_self
    have hmono : ∀ g g', G.WaitsFor (· ∈ es) g g' → G.WaitsFor (· ∈ e :: es) g g' := by
      intro g g' hwaits
      obtain ⟨w, hw, hrest⟩ := hwaits
      exact ⟨w, mem_cons_of_mem e hw, hrest⟩
    by_cases hwaits : G.Waits e
    · rw [filter_cons_of_pos (by simpa using hwaits), map_cons, cons_append]
      refine ⟨isChain_cons.mpr ⟨?_, hchain.imp hmono⟩, ?_⟩
      · intro g hg
        exact ⟨e, mem_cons_self, hwaits, rfl, hhead g hg⟩
      · intro g hg
        rw [head?_cons, Option.mem_some_iff] at hg
        rw [← hg]
        exact hsrc
    rw [filter_cons_of_neg (by simpa using hwaits)]
    refine ⟨hchain.imp hmono, ?_⟩
    intro g hg
    -- The edge leads to a vertex that its own task holds.
    have hdst : G.holds (G.task e) (G.dst e) := by
      by_contra hnot
      exact hwaits ⟨hedges e mem_cons_self, hnot⟩
    rw [G.holder_unique (hhead g hg) hdst]
    exact hsrc

/-- On a walk without waiting, the task stays the same. -/
theorem task_eq_of_no_wait (h : Walk G.src G.dst a es b)
    (hheld : ∀ e ∈ es, G.holds (G.task e) (G.src e))
    (hgoes : ∀ e ∈ es, G.holds (G.task e) (G.dst e)) (hf : G.holds f b) :
    G.holds f a ∧ ∀ e ∈ es, G.task e = f := by
  induction es generalizing a with
  | nil =>
    rw [walk_nil] at h
    rw [h]
    exact ⟨hf, fun e he => absurd he not_mem_nil⟩
  | cons e es ih =>
    obtain ⟨hdst, htasks⟩ := ih h.2 (fun g hg => hheld g (mem_cons_of_mem e hg))
      fun g hg => hgoes g (mem_cons_of_mem e hg)
    have htask : G.task e = f := G.holder_unique (hgoes e mem_cons_self) hdst
    refine ⟨?_, ?_⟩
    · rw [← h.1, ← htask]
      exact hheld e mem_cons_self
    · intro g hg
      cases mem_cons.mp hg with
      | inl heq => rw [heq, htask]
      | inr hmem => exact htasks g hmem

open Classical in
/-- There is a deadlock on the way back, or the edge `e` waits at a loop of the other task. -/
theorem Reported.cases (h : G.Reported before e cycle l) :
    (∃ f fs, G.Deadlock (· ∈ cycle ++ [l]) f fs) ∨
      G.Waits e ∧ G.holds (G.task l) (G.dst e) ∧ ∀ c ∈ cycle ++ [l], G.task c = G.task l := by
  have hedges : ∀ c ∈ cycle ++ [l], G.edge c := fun c hc =>
    h.edges c (mem_append_right _ (mem_cons_of_mem e hc))
  have he : G.edge e := h.edges e (mem_append_right _ mem_cons_self)
  have hheld : ∀ c ∈ cycle ++ [l], G.holds (G.task c) (G.src c) := fun c hc =>
    holds_of_walk h.closed (G.dst_ne_start he) hedges hc
  -- The task of the first edge of the cycle holds the vertex.
  obtain ⟨f, hf⟩ : ∃ f, G.holds f (G.dst e) := by
    cases hcycle : cycle ++ [l] with
    | nil => simp at hcycle
    | cons c cs =>
      have hclosed := h.closed
      rw [hcycle] at hclosed hheld
      refine ⟨G.task c, ?_⟩
      rw [← hclosed.1]
      exact hheld c mem_cons_self
  by_cases hnone : ∀ c ∈ cycle ++ [l], ¬ G.Waits c
  · right
    have hgoes : ∀ c ∈ cycle ++ [l], G.holds (G.task c) (G.dst c) := by
      intro c hc
      by_contra hnot
      exact hnone c hc ⟨hedges c hc, hnot⟩
    obtain ⟨-, htasks⟩ := task_eq_of_no_wait h.closed hheld hgoes hf
    have hl : G.task l = f := htasks l (mem_append_right _ (mem_singleton.mpr rfl))
    refine ⟨⟨he, ?_⟩, ?_, ?_⟩
    · intro hholds
      exact h.tasks ((G.holder_unique hholds hf).trans hl.symm)
    · rw [hl]
      exact hf
    · intro c hc
      rw [htasks c hc, hl]
  · left
    obtain ⟨hchain, hhead⟩ := waiting_chain h.closed hedges hheld hf
    have hnodup : (((cycle ++ [l]).filter fun c => decide (G.Waits c)).map G.task).Nodup := by
      have hsrc : ((cycle ++ [l]).map G.src).Nodup := by
        have hall := h.nodup
        rw [map_append, map_cons] at hall
        exact (nodup_cons.mp (nodup_append.mp hall).2.1).2
      refine ((List.Nodup.of_map _ hsrc).filter _).map_on ?_
      intro c hc c' hc' heq
      simp only [mem_filter, decide_eq_true_eq] at hc hc'
      exact G.wait_unique hc.2.1 hc'.2.1 heq hc.2.2 hc'.2.2
    cases hwaits : (cycle ++ [l]).filter fun c => decide (G.Waits c) with
    | nil =>
      refine absurd ?_ hnone
      intro c hc hwait
      have hmem : c ∈ (cycle ++ [l]).filter fun c => decide (G.Waits c) :=
        mem_filter.mpr ⟨hc, by simpa using hwait⟩
      rw [hwaits] at hmem
      exact not_mem_nil hmem
    | cons w ws =>
      rw [hwaits, map_cons, cons_append] at hchain hhead
      rw [hwaits, map_cons] at hnodup
      have hw : G.task w = f := by
        refine G.holder_unique (hhead (G.task w) ?_) hf
        rw [head?_cons]
        rfl
      rw [hw] at hchain hnodup
      refine ⟨f, ws.map G.task, ?_, hnodup, hchain⟩
      intro hnil
      rw [hnil, nil_append] at hchain
      exact (isChain_pair.mp hchain).ne rfl

end Cases

/-! ## Walks that are reported exist -/

section Exists

/-- The way of a task from a vertex that it holds to where it waits. -/
theorem Waits.segment (hw : G.Waits w) (ha : G.holds (G.task w) a) :
    ∃ es, Walk G.src G.dst a (es ++ [w]) (G.dst w) ∧ ((es ++ [w]).map G.src).Nodup ∧
      ∀ e ∈ es ++ [w], G.edge e ∧ G.task e = G.task w ∧ G.holds (G.task w) (G.src e) := by
  obtain ⟨es, hwalk, hedges⟩ := G.ahead hw.1 hw.2 ha
  obtain ⟨fs, hsub, hwalk, hnodup, hend⟩ := hwalk.exists_simple
  have hall : ∀ e ∈ fs ++ [w], G.edge e ∧ G.task e = G.task w := by
    intro e he
    cases mem_append.mp he with
    | inl he => exact hedges e (hsub he)
    | inr he =>
      rw [mem_singleton.mp he]
      exact ⟨hw.1, rfl⟩
  have hwalk' : Walk G.src G.dst a (fs ++ [w]) (G.dst w) := hwalk.append ⟨rfl, rfl⟩
  have hstart : a ≠ G.start := by
    intro heq
    rw [heq] at ha
    exact G.not_holds_start _ ha
  refine ⟨fs, hwalk', ?_, ?_⟩
  · rw [map_append, nodup_append]
    refine ⟨hnodup, nodup_singleton _, ?_⟩
    intro x hx y hy heq
    rw [map_singleton, mem_singleton] at hy
    rw [heq, hy] at hx
    exact hend hx
  · intro e he
    have hheld := holds_of_walk hwalk' hstart (fun e he => (hall e he).1) he
    rw [(hall e he).2] at hheld
    exact ⟨(hall e he).1, (hall e he).2, hheld⟩

/-- The way along a chain of waiting tasks, from a vertex of the first to where the last one waits. -/
theorem exists_round (hchain : (f :: (fs ++ [g])).IsChain (G.WaitsFor among)) (hnodup : (f :: fs).Nodup)
    (ha : G.holds f a) :
    ∃ es w, Walk G.src G.dst a (es ++ [w]) (G.dst w) ∧ ((es ++ [w]).map G.src).Nodup ∧ (∀ e ∈ es ++
      [w], G.edge e ∧ ∃ h ∈ f :: fs, G.holds h (G.src e)) ∧ G.Waits w ∧ G.holds g (G.dst w) := by
  induction fs generalizing f a with
  | nil =>
    obtain ⟨w, -, hw, htask, hholds⟩ := isChain_pair.mp hchain
    rw [← htask] at ha
    obtain ⟨es, hwalk, hsrc, hall⟩ := hw.segment ha
    refine ⟨es, w, hwalk, hsrc, ?_, hw, hholds⟩
    intro e he
    refine ⟨(hall e he).1, f, mem_cons_self, ?_⟩
    rw [← htask]
    exact (hall e he).2.2
  | cons f' fs ih =>
    rw [cons_append, isChain_cons_cons] at hchain
    obtain ⟨⟨w, -, hw, htask, hholds⟩, hchain⟩ := hchain
    rw [nodup_cons] at hnodup
    rw [← htask] at ha
    obtain ⟨es, hwalk, hsrc, hall⟩ := hw.segment ha
    obtain ⟨es', w', hwalk', hsrc', hall', hw', hholds'⟩ := ih hchain hnodup.2 hholds
    refine ⟨es ++ [w] ++ es', w', ?_, ?_, ?_, hw', hholds'⟩
    · rw [append_assoc]
      exact hwalk.append hwalk'
    · rw [append_assoc, map_append, nodup_append]
      refine ⟨hsrc, hsrc', ?_⟩
      -- A vertex is held by one task.
      intro x hx y hy heq
      obtain ⟨e, he, rfl⟩ := mem_map.mp hx
      obtain ⟨e', he', rfl⟩ := mem_map.mp hy
      obtain ⟨-, h, hmem, hheld⟩ := hall' e' he'
      have hsame := G.holder_unique (hall e he).2.2 (heq ▸ hheld)
      rw [htask] at hsame
      exact hnodup.1 (hsame ▸ hmem)
    · intro e he
      rw [append_assoc] at he
      cases mem_append.mp he with
      | inl he =>
        refine ⟨(hall e he).1, f, mem_cons_self, ?_⟩
        rw [← htask]
        exact (hall e he).2.2
      | inr he =>
        obtain ⟨hedge, h, hmem, hheld⟩ := hall' e he
        exact ⟨hedge, h, mem_cons_of_mem f hmem, hheld⟩

/-- A task that waits at a loop of another task. -/
theorem exists_reported_of_loop (he : G.Waits e) (hg : G.holds g (G.dst e))
    (hwalk : Walk G.src G.dst (G.dst e) es (G.dst e)) (hne : es ≠ [])
    (hedges : ∀ f ∈ es, G.edge f ∧ G.task f = g) :
    ∃ before cycle l, G.Reported before e cycle l ∧ ∀ c ∈ cycle ++ [l], ¬ G.Waits c := by
  have hstart : G.dst e ≠ G.start := G.dst_ne_start he.1
  have htask : G.task e ≠ g := by
    intro heq
    rw [← heq] at hg
    exact he.2 hg
  obtain ⟨cs, hsub, hcne, hclosed, hcnodup⟩ := hwalk.exists_cycle hne
  have hcs : ∀ c ∈ cs, G.edge c ∧ G.task c = g ∧ G.holds g (G.src c) := by
    intro c hc
    have hheld := holds_of_walk hclosed hstart (fun c hc => (hedges c (hsub hc)).1) hc
    rw [(hedges c (hsub hc)).2] at hheld
    exact ⟨(hedges c (hsub hc)).1, (hedges c (hsub hc)).2, hheld⟩
  -- The task of `e` has come from the start to where it waits.
  obtain ⟨before, hbefore, hbnodup, hbend, hball⟩ : ∃ before,
      Walk G.src G.dst G.start before (G.src e) ∧ (before.map G.src).Nodup ∧
        G.src e ∉ before.map G.src ∧ ∀ f ∈ before, G.edge f ∧ G.task f = G.task e := by
    cases G.held_src he.1 with
    | inl hsrc => exact ⟨[], hsrc.symm, nodup_nil, not_mem_nil, by simp⟩
    | inr hheld =>
      obtain ⟨fs, hwalk, hall⟩ := G.reach he.1 hheld
      obtain ⟨before, hsub, hwalk, hnodup, hend⟩ := hwalk.exists_simple
      exact ⟨before, hwalk, hnodup, hend, fun f hf => hall f (hsub hf)⟩
  -- Neither the way of `e` nor its last vertex is held by the other task.
  have hdisjoint : ∀ f, G.edge f → G.task f = G.task e → ∀ c ∈ cs, G.src f ≠ G.src c := by
    intro f hf hftask c hc heq
    have hheld := (hcs c hc).2.2
    rw [← heq] at hheld
    cases G.held_src hf with
    | inl hsrc =>
      rw [hsrc] at hheld
      exact G.not_holds_start g hheld
    | inr hown =>
      rw [hftask] at hown
      exact htask (G.holder_unique hown hheld)
  cases eq_nil_or_concat' cs with
  | inl hnil => exact absurd hnil hcne
  | inr hconcat =>
    obtain ⟨cycle, l, hcs'⟩ := hconcat
    subst hcs'
    refine ⟨before, cycle, l, ⟨hbefore, hclosed, ?_, ?_, ?_⟩, ?_⟩
    · rw [map_append, map_cons, nodup_append, nodup_cons]
      refine ⟨hbnodup, ⟨?_, hcnodup⟩, ?_⟩
      · intro hmem
        obtain ⟨c, hc, heq⟩ := mem_map.mp hmem
        exact hdisjoint e he.1 rfl c hc heq.symm
      intro x hx y hy heq
      obtain ⟨f, hf, rfl⟩ := mem_map.mp hx
      cases mem_cons.mp hy with
      | inl hy =>
        rw [← hy, ← heq] at hbend
        exact hbend hx
      | inr hy =>
        obtain ⟨c, hc, rfl⟩ := mem_map.mp hy
        exact hdisjoint f (hball f hf).1 (hball f hf).2 c hc heq
    · intro f hf
      cases mem_append.mp hf with
      | inl hf => exact (hball f hf).1
      | inr hf =>
        cases mem_cons.mp hf with
        | inl heq =>
          rw [heq]
          exact he.1
        | inr hf => exact (hcs f hf).1
    · rw [(hcs l (mem_append_right _ (mem_singleton.mpr rfl))).2.1]
      exact htask
    · intro c hc hwaits
      apply hwaits.2
      rw [(hcs c hc).2.1]
      cases hclosed.dst_eq_or hc with
      | inl hend =>
        rw [hend]
        exact hg
      | inr hnext =>
        obtain ⟨c', hc', heq⟩ := hnext
        rw [heq]
        exact (hcs c' hc').2.2

/-- A deadlock is reported by some walk. -/
theorem exists_reported (h : G.Deadlock among f fs) :
    ∃ before e cycle l, G.Reported before e cycle l := by
  obtain ⟨hfs, hnodup, hchain⟩ := h
  cases fs with
  | nil => exact absurd rfl hfs
  | cons f' fs =>
    rw [cons_append, isChain_cons_cons] at hchain
    obtain ⟨⟨w, -, hw, htask, hholds⟩, hchain⟩ := hchain
    rw [nodup_cons] at hnodup
    -- From where `f` waits, the other tasks lead to where the last one waits for `f`.
    obtain ⟨es, l, hround, hroundNodup, hroundAll, hl, hlholds⟩ :=
      exists_round hchain hnodup.2 hholds
    have hltask : G.task l ≠ f := by
      intro heq
      rw [← heq] at hlholds
      exact hl.2 hlholds
    by_cases hloop : ∃ cs, cs ≠ [] ∧ Walk G.src G.dst (G.dst l) cs (G.dst l) ∧
        ∀ c ∈ cs, G.edge c ∧ G.task c = f
    · obtain ⟨cs, hne, hwalk, hall⟩ := hloop
      obtain ⟨before, cycle, l', hreported, -⟩ := exists_reported_of_loop hl hlholds hwalk hne hall
      exact ⟨before, l, cycle, l', hreported⟩
    rw [← htask] at hlholds hloop
    obtain ⟨qs, hsegment, hsegmentNodup, hsegmentAll⟩ := hw.segment hlholds
    obtain ⟨ps, hps, hpsAll⟩ := G.reach hw.1 hlholds
    obtain ⟨ps', hsub, hps', hpsNodup, -⟩ := hps.exists_simple
    have hpsAll' : ∀ p ∈ ps', G.edge p ∧ G.task p = G.task w := fun p hp => hpsAll p (hsub hp)
    have hfirst : ((ps' ++ (qs ++ [w])).map G.src).Nodup := by
      refine hps'.append_simple hsegment hpsNodup hsegmentNodup ?_
      intro cs hcs hclosed
      by_contra hne
      refine hloop ⟨cs, hne, hclosed, ?_⟩
      intro c hc
      cases mem_append.mp (hcs hc) with
      | inl hc => exact hpsAll' c hc
      | inr hc => exact ⟨(hsegmentAll c hc).1, (hsegmentAll c hc).2.1⟩
    -- What `f` leaves on its way is not held by the other tasks.
    have hdisjoint : ∀ p, G.edge p → G.task p = G.task w → ∀ c ∈ es ++ [l], G.src p ≠ G.src c := by
      intro p hp hptask c hc heq
      obtain ⟨-, h, hmem, hheld⟩ := hroundAll c hc
      rw [← heq] at hheld
      cases G.held_src hp with
      | inl hsrc =>
        rw [hsrc] at hheld
        exact G.not_holds_start h hheld
      | inr hown =>
        rw [hptask, htask] at hown
        exact hnodup.1 (G.holder_unique hown hheld ▸ hmem)
    cases eq_nil_or_concat' ps' with
    | inl hnil =>
      rw [hnil, walk_nil] at hps'
      exact absurd hps'.symm (G.dst_ne_start hl.1)
    | inr hconcat =>
      obtain ⟨before, e, hps''⟩ := hconcat
      subst hps''
      have hend : G.dst e = G.dst l := hps'.dst_last
      obtain ⟨b, hbefore, hbe⟩ := walk_append.mp hps'
      rw [← hbe.1] at hbefore
      refine ⟨before, e, qs ++ [w] ++ es, l, hbefore, ?_, ?_, ?_, ?_⟩
      · rw [hend, append_assoc]
        exact hsegment.append hround
      · have hsplit : before ++ e :: (qs ++ [w] ++ es ++ [l]) =
            (before ++ [e] ++ (qs ++ [w])) ++ (es ++ [l]) := by simp
        rw [hsplit, map_append, nodup_append]
        refine ⟨hfirst, hroundNodup, ?_⟩
        intro x hx y hy heq
        obtain ⟨p, hp, rfl⟩ := mem_map.mp hx
        obtain ⟨c, hc, rfl⟩ := mem_map.mp hy
        cases mem_append.mp hp with
        | inl hp => exact hdisjoint p (hpsAll' p hp).1 (hpsAll' p hp).2 c hc heq
        | inr hp => exact hdisjoint p (hsegmentAll p hp).1 (hsegmentAll p hp).2.1 c hc heq
      · intro p hp
        have hmem : p ∈ (before ++ [e]) ∨ p ∈ qs ++ [w] ∨ p ∈ es ++ [l] := by
          simp only [mem_append, mem_cons] at hp ⊢
          tauto
        cases hmem with
        | inl hp => exact (hpsAll' p hp).1
        | inr hp =>
          cases hp with
          | inl hp => exact (hsegmentAll p hp).1
          | inr hp => exact (hroundAll p hp).1
      · have he : e ∈ before ++ [e] := mem_append_right _ (mem_singleton.mpr rfl)
        rw [(hpsAll' e he).2, htask]
        exact Ne.symm hltask

end Exists

/-- A deadlock has two tasks that wait. -/
theorem Deadlock.two_waits (h : G.Deadlock among f fs) :
    ∃ w w', among w ∧ among w' ∧ G.Waits w ∧ G.Waits w' ∧ w ≠ w' := by
  obtain ⟨hfs, hnodup, hchain⟩ := h
  cases fs with
  | nil => exact absurd rfl hfs
  | cons f' fs =>
    rw [cons_append, isChain_cons_cons] at hchain
    obtain ⟨⟨w, hw, hwaits, htask, -⟩, hchain⟩ := hchain
    have hnext : ∃ g, G.WaitsFor among f' g := by
      cases fs with
      | nil => exact ⟨f, isChain_pair.mp hchain⟩
      | cons g fs =>
        rw [cons_append, isChain_cons_cons] at hchain
        exact ⟨g, hchain.1⟩
    obtain ⟨-, w', hw', hwaits', htask', -⟩ := hnext
    refine ⟨w, w', hw, hw', hwaits, hwaits', ?_⟩
    intro heq
    rw [heq, htask'] at htask
    rw [nodup_cons, htask] at hnodup
    exact hnodup.1 mem_cons_self

end WaitGraph

end Kar.Lib
