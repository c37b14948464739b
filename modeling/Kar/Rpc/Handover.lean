import Kar.Rpc.Assignment
import Kar.Rpc.Messages

/-!
# Handing over the messages of a partition

`ConsumeClaim` of `core/pkg/rpc/transport.go` calls `processor` for the messages of a session.  A session
starts where Kafka starts it, so messages come again, and the only memory of the process is the variable
`head`, the next offset to read.

The offset does not say of which partition it is.  So the filter is right only because the partition of a
process never changes: what `Setup` decides is published by `Cleanup`, and every later plan takes it over
(`Consumers.ClaimsOk`).  Then what was read is always one interval of the offsets of one partition
(`Reader.Ok`).
-/

namespace Kar.Rpc

open Kar.Lib

/-! ## The loop -/

/-- What the loop does with a message. -/
inductive Verdict
  /-- The offset is below `head`. -/
  | skipped
  /-- A message of type `Done`. -/
  | passed
  /-- `processor` is called. -/
  | handed
  deriving DecidableEq, Repr

/-- The cases of the `switch`. -/
def Message.verdict : Message → Verdict
  | .request _ => .handed
  | .response _ => .handed
  | .done _ => .passed

/-- A message that came out of a claim. -/
structure Taken where
  partition : Nat
  offset : Nat
  verdict : Verdict
  deriving DecidableEq, Repr

structure Reader where
  head : Nat
  /-- Everything that the loop has read.  The loop does not depend on it. -/
  taken : List Taken
  deriving DecidableEq, Repr

namespace Reader

def init : Reader := ⟨0, []⟩

variable (log : Nat → Nat → Message)

/-- The body of the loop, for the message at offset `o` of the partition `p`. -/
def read (p : Nat) (r : Reader) (o : Nat) : Reader :=
  if o < r.head then { r with taken := r.taken ++ [⟨p, o, .skipped⟩] }
  else { head := o + 1, taken := r.taken ++ [⟨p, o, (log p o).verdict⟩] }

/-- `ConsumeClaim` of a session that delivers `count` messages from the offset `start` on. -/
def consumeClaim (r : Reader) (p start count : Nat) : Reader :=
  (List.range' start count).foldl (read log p) r

/-- What was read is the interval of the partition `p` from `first` up to `head`. -/
structure Ok (first p : Nat) (r : Reader) : Prop where
  processed : r.taken.filter (fun t => decide (t.verdict ≠ .skipped)) =
    (List.range' first (r.head - first)).map fun o => ⟨p, o, (log p o).verdict⟩
  bounds : ∀ t ∈ r.taken, t.partition = p ∧ first ≤ t.offset ∧ t.offset < r.head
  /-- What the filter discards was read before. -/
  skipped : ∀ before t after, r.taken = before ++ t :: after → t.verdict = .skipped →
    ⟨p, t.offset, (log p t.offset).verdict⟩ ∈ before

variable {log}

theorem verdict_ne_skipped (m : Message) : m.verdict ≠ .skipped := by
  cases m with
  | request => exact Verdict.noConfusion
  | response => exact Verdict.noConfusion
  | done => exact Verdict.noConfusion

theorem Ok.init (log : Nat → Nat → Message) (first p : Nat) : Ok log first p Reader.init where
  processed := by
    show [] = (List.range' first (0 - first)).map _
    rw [Nat.zero_sub]
    rfl
  bounds := fun t ht => absurd ht List.not_mem_nil
  skipped := fun before t after heq => absurd heq.symm (by simp [Reader.init])

/-- An offset below `head` was read. -/
theorem Ok.mem_of_lt (h : Ok log first p r) (hfirst : first ≤ o) (hlt : o < r.head) :
    ⟨p, o, (log p o).verdict⟩ ∈ r.taken := by
  have hmem : (⟨p, o, (log p o).verdict⟩ : Taken) ∈ (List.range' first (r.head - first)).map fun o
      => ⟨p, o, (log p o).verdict⟩ := List.mem_map.mpr ⟨o, List.mem_range'_1.mpr (by omega), rfl⟩
  rw [← h.processed] at hmem
  exact (List.mem_filter.mp hmem).1

/-- What the last entry of a list must satisfy. -/
theorem skipped_append {taken : List Taken} {t : Taken}
    (h : ∀ before t after, taken = before ++ t :: after → t.verdict = .skipped →
      ⟨p, t.offset, (log p t.offset).verdict⟩ ∈ before)
    (ht : t.verdict = .skipped → ⟨p, t.offset, (log p t.offset).verdict⟩ ∈ taken) :
    ∀ before t' after, taken ++ [t] = before ++ t' :: after → t'.verdict = .skipped →
      ⟨p, t'.offset, (log p t'.offset).verdict⟩ ∈ before := by
  intro before t' after heq hskipped
  cases List.eq_nil_or_concat' after with
  | inl hnil =>
    rw [hnil] at heq
    obtain ⟨hbefore, hlast⟩ := List.append_inj' heq rfl
    rw [List.cons.injEq] at hlast
    rw [← hlast.1] at hskipped ⊢
    rw [← hbefore]
    exact ht hskipped
  | inr hconcat =>
    obtain ⟨after', last, hafter⟩ := hconcat
    rw [hafter, ← List.cons_append, ← List.append_assoc] at heq
    exact h before t' after' (List.append_inj' heq rfl).1 hskipped

/-- One message, at the next unread offset or below it. -/
theorem Ok.read (h : Ok log first p r) (hfirst : first ≤ o) (hle : o ≤ max r.head first) :
    Ok log first p (r.read log p o) ∧ o + 1 ≤ max (r.read log p o).head first := by
  unfold Reader.read
  split
  · rename_i hlt
    refine ⟨⟨?_, ?_, ?_⟩, by simp only; omega⟩
    · rw [List.filter_append, h.processed, List.filter_cons_of_neg (by simp), List.filter_nil,
        List.append_nil]
    · intro t ht
      cases List.mem_append.mp ht with
      | inl ht => exact h.bounds t ht
      | inr ht =>
        rw [List.mem_singleton.mp ht]
        exact ⟨rfl, hfirst, hlt⟩
    · exact skipped_append h.skipped fun _ => h.mem_of_lt hfirst hlt
  · -- The message is the one at the next unread offset.
    have hlen : o + 1 - first = (r.head - first) + 1 := by omega
    have hnext : first + (r.head - first) = o := by omega
    refine ⟨⟨?_, ?_, ?_⟩, by simp only; omega⟩
    · rw [List.filter_append, h.processed, List.filter_cons_of_pos (by simp [verdict_ne_skipped]),
        List.filter_nil, hlen, List.range'_concat, List.map_append, Nat.one_mul, hnext]
      rfl
    · intro t ht
      cases List.mem_append.mp ht with
      | inl ht =>
        obtain ⟨hp, hlow, hhigh⟩ := h.bounds t ht
        exact ⟨hp, hlow, by simp only; omega⟩
      | inr ht =>
        rw [List.mem_singleton.mp ht]
        exact ⟨rfl, hfirst, Nat.lt_succ_self o⟩
    · exact skipped_append h.skipped fun hskipped => absurd hskipped (verdict_ne_skipped _)

/-- A session. -/
theorem Ok.consumeClaim (h : Ok log first p r) (hfirst : first ≤ start)
    (hle : start ≤ max r.head first) : Ok log first p (r.consumeClaim log p start count) := by
  unfold Reader.consumeClaim
  induction count generalizing start r with
  | zero => exact h
  | succ _ ih =>
    rw [List.range'_succ, List.foldl_cons]
    obtain ⟨hread, hnext⟩ := h.read hfirst hle
    exact ih hread (by omega) hnext

/-- The offsets for which `processor` was called, in the order of the calls. -/
def handed (r : Reader) : List Nat :=
  (r.taken.filter fun t => decide (t.verdict = .handed)).map Taken.offset

/-- Each message of the partition `p` is handed over once and in order. -/
structure HandedOver (log : Nat → Nat → Message) (p : Nat) (r : Reader) : Prop where
  own : ∀ t ∈ r.taken, t.partition = p
  increasing : r.handed.Pairwise (· < ·)
  /-- Every call, tell and response that was delivered was handed over. -/
  all : ∀ t ∈ r.taken, (log p t.offset).verdict = .handed → t.offset ∈ r.handed
  /-- What the filter discards was processed before. -/
  skipped : ∀ before t after, r.taken = before ++ t :: after → t.verdict = .skipped →
    ⟨p, t.offset, (log p t.offset).verdict⟩ ∈ before

theorem Ok.handed_eq (h : Ok log first p r) :
    r.handed = (List.range' first (r.head - first)).filter
      fun o => decide ((log p o).verdict = .handed) := by
  have hfilter : r.taken.filter (fun t => decide (t.verdict = .handed)) =
      (r.taken.filter fun t => decide (t.verdict ≠ .skipped)).filter
        fun t => decide (t.verdict = .handed) := by
    rw [List.filter_filter]
    apply List.filter_congr
    intro t _
    cases t.verdict with
    | skipped => rfl
    | passed => rfl
    | handed => rfl
  rw [handed, hfilter, h.processed, List.filter_map, List.map_map]
  exact List.map_id _

theorem Ok.handedOver (h : Ok log first p r) : HandedOver log p r where
  own := fun t ht => (h.bounds t ht).1
  increasing := by
    rw [h.handed_eq]
    exact List.Pairwise.filter _ List.pairwise_lt_range'
  all := by
    intro t ht hverdict
    obtain ⟨-, hlow, hhigh⟩ := h.bounds t ht
    rw [h.handed_eq, List.mem_filter, List.mem_range'_1]
    exact ⟨by omega, by simpa using hverdict⟩
  skipped := h.skipped

end Reader

/-! ## The partition of a process -/

namespace Consumers

/-- A member that has messages to process has one partition, which is the one it had before. -/
structure ClaimsOk (s : Consumers) (g : Generation) : Prop where
  known : ∀ n ∈ g.nodes, n ∈ s.known
  one : ∀ n, g.claims n ≠ [] → (s.procs n).recovery = none →
    ∃ p, g.claims n = [p] ∧ p ≠ 0 ∧ (s.partition n ≠ 0 → p = s.partition n)

structure ClaimsInv (s : Consumers) : Prop extends Named s where
  fresh : ∀ n, n ∉ s.known → s.partition n = 0
  generation : ∀ g, s.generation = some g → s.ClaimsOk g

theorem claimsInv_init : ClaimsInv .init where
  names := fun _ => rfl
  published := fun _ => rfl
  fresh := fun _ _ => rfl
  generation := by simp [init]

variable {s : Consumers}

/-- A plan takes over what a member has published. -/
theorem claimsOk_afterPlan (h : s.Named) (hjoined : s.Joined leader members order order')
    (hplan : s.planned leader members order order' size offsets = (.ok pl, Q)) :
    (s.afterPlan leader members (.ok pl) Q).ClaimsOk
      { leader := leader, members := s.infos members, plan := pl } := by
  have hnodes : Generation.nodes { leader := leader, members := s.infos members, plan := pl } =
      members.map Prod.snd := infos_nodes' h
  refine ⟨?_, ?_⟩
  · rw [hnodes]
    exact hjoined.known
  intro n hclaims hrecovery
  have hn : n ∈ members.map Prod.snd := by
    by_contra hn
    rw [← hnodes] at hn
    exact hclaims (claims_of_not_mem hn)
  obtain ⟨m, hm, rfl⟩ := List.mem_map.mp hn
  rw [claims_of_plan h hjoined pl hm] at hclaims ⊢
  by_cases hclean : Q.recovery = none
  · obtain ⟨hpl, hne⟩ := clean_apply h hjoined hplan rfl hclean hm
    refine ⟨_, hpl, hne, ?_⟩
    intro hpart
    have hsame : (s.afterPlan leader members (.ok pl) Q).partition m.2 = s.partition m.2 :=
      congrArg Info.partition (afterPlan_self hplan m.2)
    rw [hsame] at hpart ⊢
    have hknows : s.knows leader m.2 = s.partition m.2 := if_neg hpart
    rw [table_of_mem h hjoined hplan hn (by rwa [hknows]), hknows]
  -- Only the leader has partitions, and its variable `recovery` is set.
  have happly := unclean_apply h hjoined hplan rfl hclean hm
  by_cases hlead : m.2 = leader
  · rw [hlead] at hrecovery
    have hself : (s.afterPlan leader members (.ok pl) Q).procs leader = Q :=
      Function.update_self _ _ _
    rw [hself] at hrecovery
    exact absurd hrecovery hclean
  · rw [if_neg hlead] at happly
    exact absurd happly hclaims

/-- A process that completes its `Setup` has one partition. -/
theorem ClaimsInv.claims_of_completes (h : s.ClaimsInv) (hg : s.generation = some g)
    (hn : s.completes g nodes n = true) :
    ∃ p, g.claims n = [p] ∧ p ≠ 0 ∧ (s.partition n ≠ 0 → p = s.partition n) ∧
      (s.setUp g nodes).partition n = p := by
  have hcompletes := hn
  simp only [completes, Bool.and_eq_true, decide_eq_true_eq, Option.isNone_iff_eq_none] at hcompletes
  have hne : g.claims n ≠ [] := by
    intro hnil
    simp [hnil] at hcompletes
  obtain ⟨p, hp, hp0, hsame⟩ := (h.generation g hg).one n hne hcompletes.2
  exact ⟨p, hp, hp0, hsame, setUp_partition hn hp⟩

theorem partition_setUp_of_not_completes (h : s.Named) (hn : s.completes g nodes n = false) :
    (s.setUp g nodes).partition n = s.partition n := by
  unfold partition
  rw [setUp_of_not_completes h hn]

theorem ClaimsInv.partition_start (h : s.ClaimsInv) (services : List String)
    (hn : n ∉ s.known) (x : String) : (s.start n services).partition x = s.partition x := by
  unfold partition
  by_cases hx : x = n
  · rw [hx, start_self]
    exact (h.fresh n hn).symm
  · rw [start_of_ne hx]

/-- Only a `Setup` that is completed decides a partition. -/
theorem ClaimsInv.partition_step (h : s.ClaimsInv) (hstep : s.step e = some s')
    (hn : ∀ nodes g, e = .setup nodes → s.generation = some g → s.completes g nodes n = false) :
    s'.partition n = s.partition n := by
  cases e with
  | dial x services =>
    obtain ⟨hx, rfl⟩ := of_guard hstep
    exact h.partition_start services hx n
  | plan =>
    obtain ⟨-, rfl⟩ := of_guard hstep
    exact congrArg Info.partition (afterPlan_self (Prod.eta _).symm n)
  | setup nodes =>
    simp only [Consumers.step] at hstep
    split at hstep
    · simp at hstep
    rename_i g hg
    cases hstep
    exact partition_setUp_of_not_completes h.toNamed (hn nodes g rfl hg)
  | recovered =>
    simp only [Consumers.step] at hstep
    split at hstep
    · simp at hstep
    obtain ⟨-, rfl⟩ := of_guard hstep
    unfold partition
    simp only [Function.update_apply]
    split
    · rename_i heq
      rw [heq]
      rfl
    · rfl

theorem ClaimsInv.dial (h : s.ClaimsInv) (services : List String)
    (hn : n ∉ s.known) : (s.start n services).ClaimsInv := by
  have hpartition := h.partition_start services hn
  refine ⟨h.toNamed.start n services, ?_, ?_⟩
  · intro x hx
    rw [hpartition]
    exact h.fresh x fun hmem => hx (List.mem_cons_of_mem n hmem)
  intro g hg
  have hold := h.generation g hg
  refine ⟨fun x hx => List.mem_cons_of_mem n (hold.known x hx), ?_⟩
  intro x hclaims hrecovery
  have hx : x ≠ n := by
    intro heq
    refine hclaims (claims_of_not_mem fun hmem => hn ?_)
    rw [← heq]
    exact hold.known x hmem
  rw [start_of_ne hx] at hrecovery
  rw [hpartition]
  exact hold.one x hclaims hrecovery

theorem ClaimsInv.setUp (h : s.ClaimsInv)
    (hg : s.generation = some g) (nodes : List String) : (s.setUp g nodes).ClaimsInv := by
  refine ⟨h.toNamed.setUp g nodes, ?_, by simp [Consumers.setUp]⟩
  intro n hn
  have hnot : n ∉ g.nodes := fun hmem => hn ((h.generation g hg).known n hmem)
  rw [partition_setUp_of_not_completes h.toNamed (not_completes_of_not_mem hnot)]
  exact h.fresh n hn

theorem ClaimsInv.step (h : s.ClaimsInv) (hstep : s.step e = some s') : s'.ClaimsInv := by
  cases e with
  | dial n services =>
    obtain ⟨hn, rfl⟩ := of_guard hstep
    exact h.dial services hn
  | plan leader members order order' size offsets =>
    obtain ⟨hjoined, hstep⟩ := Option.ite_none_right_eq_some.mp hstep
    cases hplan : s.planned leader members order order' size offsets with
    | mk r =>
      rw [hplan] at hstep
      cases hstep
      refine ⟨h.toNamed.afterPlan hplan, ?_, ?_⟩
      · intro n hn
        unfold partition
        rw [afterPlan_self hplan]
        exact h.fresh n hn
      · intro g hg
        cases r with
        | error => simp [afterPlan] at hg
        | ok =>
          simp only [afterPlan, Option.some.injEq] at hg
          subst hg
          exact claimsOk_afterPlan h.toNamed hjoined hplan
  | setup nodes =>
    simp only [Consumers.step] at hstep
    split at hstep
    · simp at hstep
    rename_i g hg
    cases hstep
    exact h.setUp hg nodes
  | recovered =>
    have hfresh : ∀ n, s'.partition n = s.partition n := fun n =>
      h.partition_step hstep fun nodes g he => GroupEvent.noConfusion he
    simp only [Consumers.step] at hstep
    split at hstep
    · simp at hstep
    split at hstep
    · have hs' := Option.some.inj hstep
      subst hs'
      refine ⟨h.toNamed.frame fun n => ?_, fun n hn => (hfresh n).trans (h.fresh n hn), by simp⟩
      simp only [Function.update_apply]
      split
      · rename_i heq
        rw [heq]
        exact ⟨rfl, rfl⟩
      · exact ⟨rfl, rfl⟩
    · simp at hstep

end Consumers

/-! ## All generations -/

/-- The messages that a session gets from a partition: `count` of them, from the offset `start` on. -/
structure Delivery where
  start : Nat
  count : Nat
  deriving DecidableEq, Repr

structure Handover where
  group : Consumers
  reader : String → Reader

/-- A step of the group, with what the sessions of a node get from a partition. -/
abbrev HandoverEvent := GroupEvent × (String → Nat → Delivery)

namespace Handover

def init : Handover := ⟨.init, fun _ => .init⟩

/-- The partitions for which `ConsumeClaim` of node `n` processes messages. -/
def sessions (s : Handover) (e : GroupEvent) (n : String) : List Nat :=
  match e, s.group.generation with
  | .setup nodes, some g => if s.group.completes g nodes n then g.claims n else []
  | _, _ => []

def step (log : Nat → Nat → Message) (s : Handover) (e : HandoverEvent) : Option Handover :=
  (s.group.step e.1).map fun group =>
    { group := group
      reader := fun n => (s.sessions e.1 n).foldl
        (fun r p => r.consumeClaim log p (e.2 n p).start (e.2 n p).count) (s.reader n) }

/-- A session starts at or below the next offset that node `n` has not processed, and not below the
first message `first n` of its partition. -/
def Redelivers (first : String → Nat) (s : Handover) (e : HandoverEvent) : Prop :=
  match e.1 with
  | .setup nodes => ∀ n ∈ nodes, ∀ p ∈ s.sessions e.1 n,
      first n ≤ (e.2 n p).start ∧ (e.2 n p).start ≤ max (s.reader n).head (first n)
  | _ => True

instance (first : String → Nat) (s : Handover) : (e : HandoverEvent) → Decidable (Redelivers first s e)
  | (.setup nodes, _) => inferInstanceAs (Decidable (∀ n ∈ nodes, ∀ p ∈ s.sessions _ n, _))
  | (.dial .., _) | (.plan .., _) | (.recovered, _) => inferInstanceAs (Decidable True)

structure Inv (log : Nat → Nat → Message) (first : String → Nat) (s : Handover) : Prop where
  group : s.group.ClaimsInv
  /-- A process without a partition has read nothing. -/
  unread : ∀ n, s.group.partition n = 0 → s.reader n = .init
  read : ∀ n, (s.reader n).Ok log (first n) (s.group.partition n)

theorem inv_init (log : Nat → Nat → Message) (first : String → Nat) : Inv log first init where
  group := Consumers.claimsInv_init
  unread := fun _ _ => rfl
  read := fun n => .init log (first n) 0

section Step

variable {s : Handover}

theorem partition_of_no_session (h : s.group.ClaimsInv) {e : GroupEvent} {group : Consumers}
    (hstep : s.group.step e = some group) {n : String} (hn : s.sessions e n = []) :
    group.partition n = s.group.partition n := by
  refine h.partition_step hstep ?_
  intro nodes g he hg
  apply Bool.eq_false_iff.mpr
  intro hc
  obtain ⟨p, hp, -⟩ := h.claims_of_completes hg hc
  subst he
  simp only [sessions, hg, hc, if_true, hp] at hn
  exact absurd hn (List.cons_ne_nil p [])

/-- A node with a session has one partition, now and in the sessions before. -/
theorem session_of_ne_nil (h : s.group.ClaimsInv) {e : GroupEvent} {group : Consumers}
    (hstep : s.group.step e = some group) {n : String} (hn : s.sessions e n ≠ []) :
    ∃ p, s.sessions e n = [p] ∧ group.partition n = p ∧ (s.group.partition n ≠ 0 → s.group.partition
      n = p) ∧ p ≠ 0 ∧ ∃ nodes, e = .setup nodes ∧ n ∈ nodes := by
  unfold sessions at hn ⊢
  cases e with
  | setup nodes =>
    cases hg : s.group.generation with
    | none => simp [hg] at hn
    | some g =>
      simp only [hg] at hn ⊢
      by_cases hc : s.group.completes g nodes n = true
      · rw [if_pos hc]
        obtain ⟨p, hp, hp0, hsame, hpart⟩ := h.claims_of_completes hg hc
        simp only [Consumers.step, hg, Option.some.injEq] at hstep
        have hmem : n ∈ nodes := by
          simp only [Consumers.completes, Bool.and_eq_true, decide_eq_true_eq] at hc
          exact hc.1.1
        rw [← hstep]
        exact ⟨p, hp, hpart, fun hne => (hsame hne).symm, hp0, nodes, rfl, hmem⟩
      · rw [if_neg hc] at hn
        exact absurd rfl hn
  | dial => exact absurd rfl hn
  | plan => exact absurd rfl hn
  | recovered => exact absurd rfl hn

theorem Inv.step (h : Inv log first s) (hok : Redelivers first s e)
    (hstep : s.step log e = some s') : Inv log first s' := by
  rw [Handover.step, Option.map_eq_some_iff] at hstep
  obtain ⟨group, hgroup, hs'⟩ := hstep
  subst hs'
  have hkeep := fun n => @partition_of_no_session s h.group e.1 group hgroup n
  have hone := fun n => @session_of_ne_nil s h.group e.1 group hgroup n
  refine ⟨h.group.step hgroup, ?_, ?_⟩
  · intro n hn
    by_cases hnil : s.sessions e.1 n = []
    · simp only [hnil, List.foldl_nil]
      exact h.unread n ((hkeep n hnil).symm.trans hn)
    · obtain ⟨p, -, hp, -, hp0, -⟩ := hone n hnil
      exact absurd (hp.symm.trans hn) hp0
  intro n
  by_cases hnil : s.sessions e.1 n = []
  · simp only [hnil, List.foldl_nil]
    rw [hkeep n hnil]
    exact h.read n
  obtain ⟨p, hsession, hp, hsame, -, nodes, he, hmem⟩ := hone n hnil
  have hstart : first n ≤ (e.2 n p).start ∧ (e.2 n p).start ≤ max (s.reader n).head (first n) := by
    unfold Redelivers at hok
    rw [he] at hok
    refine hok n hmem p ?_
    rw [← he, hsession]
    exact List.mem_singleton.mpr rfl
  have hread : (s.reader n).Ok log (first n) p := by
    by_cases h0 : s.group.partition n = 0
    · rw [h.unread n h0]
      exact .init log (first n) p
    · rw [← hsame h0]
      exact h.read n
  simp only [hsession, List.foldl_cons, List.foldl_nil]
  rw [hp]
  exact hread.consumeClaim hstart.1 hstart.2

end Step

/-- In every history whose sessions start at or below the next unprocessed offset, each message of the
partition of a node is handed over once and in order. -/
theorem handed_over_once (log : Nat → Nat → Message) (first : String → Nat) {s : Handover}
    (h : Reachable (step log) (Redelivers first) init s) (n : String) :
    (s.reader n).HandedOver log (s.group.partition n) :=
  have hinv : Inv log first s :=
    h.invariant (inv_init log first) fun _ _ _ _ hinv hok hstep => hinv.step hok hstep
  (hinv.read n).handedOver

/-- A response at every offset, but a record of completion at offset `1`. -/
private def responses (_ o : Nat) : Message :=
  if o = 1 then .done ⟨"", none⟩ else .response ⟨"", [], none, "", ""⟩

/-- The node `n1` reads two messages.  When `n2` joins, `n1` leads a recovery, and the next session starts
at offset `1` again. -/
private def joinSessions : List HandoverEvent :=
  [(.dial "n1" [], fun _ _ => ⟨0, 0⟩),
    (.plan "n1" [("m1", "n1")] ["n1"] ["n1"] 3 (Consumers.oneMessage []), fun _ _ => ⟨0, 0⟩),
    (.setup ["n1"], fun _ _ => ⟨0, 2⟩), (.dial "n2" ["a"], fun _ _ => ⟨0, 0⟩),
    (.plan "n1" [("m1", "n1"), ("m2", "n2")] ["n2", "n1"] ["n1", "n2"] 3 (Consumers.oneMessage [0]),
      fun _ _ => ⟨0, 0⟩),
    (.recovered, fun _ _ => ⟨0, 0⟩),
    (.plan "n1" [("m1", "n1"), ("m2", "n2")] ["n2", "n1"] ["n1", "n2"] 3 (Consumers.oneMessage [0, 1]),
      fun _ _ => ⟨0, 0⟩),
    (.setup ["n1", "n2"], fun n _ => if n = "n1" then ⟨1, 3⟩ else ⟨0, 1⟩)]

theorem handed_over_after_recovery : ∃ s, run (step responses) init joinSessions = some s ∧
    (s.reader "n1").HandedOver responses (s.group.partition "n1") ∧
    (s.reader "n1").handed = [0, 2, 3] := by
  have hok : runOk (step responses) (Redelivers fun _ => 0) init joinSessions = true := by
    decide +kernel
  obtain ⟨s, hrun, hs⟩ := reachable_of_run .init hok
  have hhanded := eq_of_run (fun s => (s.reader "n1").handed) (a := [0, 2, 3]) hrun (by decide +kernel)
  exact ⟨s, hrun, handed_over_once responses (fun _ => 0) hs "n1", hhanded⟩

end Handover

end Kar.Rpc
