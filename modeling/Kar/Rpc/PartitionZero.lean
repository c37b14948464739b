import Kar.Rpc.Topic

/-!
# No request that can be served is left in partition 0

Partition `0` is never emptied, so a leader has to know how far it has dealt with it.
This is the variable `offset0` of the process: a plan is clean only if partition `0` has
no offset beyond it.

`ZeroInv.seen` is what the variable stands for: a process that has seen the whole of
partition `0` knows no node that could serve a request waiting there.  It holds along
every history in which no process that missed a generation comes back.  Such a process
is not new for the leader, which then does not set `offset0` back.
-/

namespace Kar.Rpc

open Kar.Lib List Function

/-! ## Requests that wait in partition 0 -/

/-- The request messages of `k` in partition `0`. -/
def Log.zeroRequests (log : Log) (k : String) : List (Nat × Request) :=
  (log.messages 0).filterMap (fun m => requestOf k (0, m))

/-- The request `k` is not completed, and the message `v` of partition `0` is later than
every message of `k` in another partition. -/
structure Waiting (log : Log) (k : String) (v : Request) : Prop where
  last : lastMax (fun pv => pv.2.sequence) (log.zeroRequests k) = some (0, v)
  unanswered : ¬ log.Answered k
  later : ∀ p u, p ≠ 0 → Message.request u ∈ log.messages p → u.requestID = k →
    u.sequence < v.sequence

variable {k : String} {log : Log}

theorem Waiting.mem (h : Waiting log k v) :
    .request v ∈ log.messages 0 ∧ v.requestID = k := by
  have hmem := lastMax_mem _ h.last
  obtain ⟨m, hm, hreq⟩ := mem_filterMap.mp hmem
  have hread : (0, v) ∈ requestsOf [(0, m)] k := by
    unfold requestsOf
    rw [filterMap_cons_some hreq]
    exact mem_cons_self
  obtain ⟨hin, hid⟩ := mem_requestsOf.mp hread
  rw [mem_singleton, Prod.mk.injEq] at hin
  exact ⟨hin.2 ▸ hm, hid⟩

/-- More messages in the other partitions leave fewer requests waiting. -/
theorem Waiting.of_grown (h : Waiting log' k v) (hzero : log'.messages 0 = log.messages 0)
    (hgrown : ∀ p, ∀ m ∈ log.messages p, m ∈ log'.messages p) : Waiting log k v where
  last := by
    have hlast := h.last
    unfold Log.zeroRequests at hlast ⊢
    rwa [hzero] at hlast
  unanswered := by
    rintro ⟨p, m, hm, hrecord⟩
    exact h.unanswered ⟨p, m, hgrown p m hm, hrecord⟩
  later := fun p u hp hu hid => h.later p u hp (hgrown p _ hu) hid

/-- Writes that do not move the end of partition `0` do not touch it. -/
theorem messages_zero_appendAll (h : ((log.appendAll sent) 0).newest ≤ (log 0).newest) :
    (∀ m, (0, m) ∉ sent) ∧ (log.appendAll sent).messages 0 = log.messages 0 := by
  have hmessages := log.messages_appendAll sent 0
  unfold Partition.newest at h
  rw [log.oldest_appendAll] at h
  have hlength : (sent.filter (fun pm => pm.1 = 0)).length = 0 := by
    have hsame := congrArg length hmessages
    rw [length_append, length_map] at hsame
    unfold Log.messages at hsame
    omega
  have hnil := eq_nil_of_length_eq_zero hlength
  refine ⟨fun m hm => ?_, ?_⟩
  · have hmem : (0, m) ∈ sent.filter (fun pm => decide (pm.1 = 0)) := mem_filter.mpr ⟨hm, by simp⟩
    rw [hnil] at hmem
    simp at hmem
  · rw [hmessages, hnil, map_nil, append_nil]

theorem newest_le_appendAll :
    (log p).newest ≤ ((log.appendAll sent) p).newest := by
  have hmessages := congrArg length (log.messages_appendAll sent p)
  unfold Log.messages at hmessages
  rw [length_append] at hmessages
  unfold Partition.newest
  rw [log.oldest_appendAll]
  omega

/-- Whether a log is settleable depends on the partitions that are read. -/
theorem Settleable.congr (h : Settleable t live reads)
    (hlive : ∀ pm ∈ reads, live.mem pm.1 = live'.mem pm.1) : Settleable t live' reads := by
  have hmem : ∀ k pv, pv ∈ requestsOf reads k → live.mem pv.1 = live'.mem pv.1 :=
    fun k pv hpv => hlive _ (mem_requestsOf.mp hpv).1
  have hheld : ∀ k, HeldLive live reads k → HeldLive live' reads k := by
    rintro k ⟨pv, hpv, hp, hseq⟩
    exact ⟨pv, hpv, hmem k pv hpv ▸ hp, hseq⟩
  refine ⟨h.bounded, ?_, ?_, ?_⟩
  · intro k pv hpv hans hnot
    obtain ⟨qw, hqw, hp, hseq⟩ := h.restarts k pv hpv hans fun hl => hnot (hheld k hl)
    exact ⟨qw, hqw, hmem k qw hqw ▸ hp, hseq⟩
  · exact fun k hans hnot => h.zero_le k hans fun hl => hnot (hheld k hl)
  · exact fun k hans hnot => h.idle k hans fun hl => hnot (hheld k hl)

/-! ## The invariant -/

namespace Topic

open Consumers

/-- The offset at which the next message of partition `0` is written. -/
def newest0 (s : Topic) : Nat := (s.log 0).newest

/-- The process has dealt with the whole of partition `0`. -/
def Seen (s : Topic) (l : String) : Prop := s.newest0 ≤ (s.group.procs l).offset0

/-- The node offers the service that the request asks for. -/
def Offers (s : Topic) (n : String) (v : Request) : Prop :=
  ∃ name, v.target.service? = some name ∧ name ∈ (s.group.procs n).self.services

/-- Nothing is written beyond the partitions of the topic. -/
structure Bounds (s : Topic) : Prop where
  size : 0 < s.size
  tables : ∀ l n, (s.group.procs l).node2partition n < s.size
  claims : ∀ g, s.group.generation = some g → ∀ n, ∀ p ∈ g.claims n, p < s.size
  partitions : ∀ n, s.group.partition n < s.size
  beyond : ∀ p, s.size ≤ p → s.log.messages p = []

/-- What the plan of a recovery leaves in the variables of its leader. -/
structure Leads (group : Consumers) (g : Generation) : Prop where
  nodes : ∀ n, (group.procs g.leader).node2partition n ≠ 0 ↔ n ∈ g.nodes
  offered : ∀ name n, n ∈ (group.procs g.leader).service2nodes name ↔
    n ∈ g.nodes ∧ name ∈ (group.procs n).self.services
  /-- The map `recovery` was made before the new nodes got their partitions, but these
  are not read. -/
  live : ∀ p ∈ g.claims g.leader, (group.procs g.leader).liveSet.mem p =
    (g.attached (group.procs g.leader)).mem p

structure ZeroInv (s : Topic) : Prop where
  targets : ∀ v, Message.request v ∈ s.log.messages 0 → v.target.service? ≠ none
  offset0 : ∀ n, (s.group.procs n).offset0 ≤ s.newest0
  max0 : ∀ n, (s.group.procs n).max0 ≤ s.newest0
  /-- A process that has seen everything knows no node for a request that waits. -/
  seen : ∀ l, s.group.Present l → s.Seen l → ∀ k v, Waiting s.log k v →
    ∀ n, s.group.Present n → s.group.knows l n ≠ 0 → ¬ s.Offers n v
  /-- In a clean generation no member can serve a request that waits. -/
  clean : ∀ g, s.group.generation = some g → (s.leading g).recovery = none →
    ∀ l, s.group.Present l → s.Seen l → ∀ k v, Waiting s.log k v →
      ∀ n ∈ g.nodes, ¬ s.Offers n v
  leads : ∀ g, s.group.generation = some g → (s.leading g).recovery.isSome = true →
    Leads s.group g
  /-- The leader of a recovery reads everything, unless partition `0` has grown. -/
  covers : ∀ g, s.group.generation = some g → (s.leading g).recovery.isSome = true →
    (∃ l, s.group.Present l ∧ s.Seen l) ∨ s.newest0 ≤ (s.leading g).max0 →
    (g.read (s.leading g)).Covers s.log

theorem bounds_init : Bounds .init where
  size := Nat.one_pos
  tables := fun _ _ => Nat.one_pos
  claims := by simp [init, Consumers.init]
  partitions := fun _ => Nat.one_pos
  beyond := fun _ _ => rfl

theorem zeroInv_init : ZeroInv .init where
  targets := by simp [init, Log.empty, Log.messages]
  offset0 := fun _ => Nat.zero_le _
  max0 := fun _ => Nat.zero_le _
  seen := by
    intro l hl
    simp [Present, init, Consumers.init] at hl
  clean := by simp [init, Consumers.init]
  leads := by simp [init, Consumers.init]
  covers := by simp [init, Consumers.init]

variable {s : Topic} {group : Consumers}

/-- As long as nothing was written to partition `0`, no request waits there. -/
theorem not_waiting_of_newest0 (h : s.newest0 ≤ 0) :
    ¬ Waiting s.log k v := by
  intro hw
  have hmem := hw.mem.1
  unfold newest0 Partition.newest at h
  have hnil : s.log.messages 0 = [] := eq_nil_of_length_eq_zero (by
    unfold Log.messages
    omega)
  rw [hnil] at hmem
  simp at hmem

/-! ## Writes -/

theorem Bounds.append (h : s.Bounds) (hp : p < s.size) (m : Message) :
    Bounds { s with log := s.log.append p m } where
  size := h.size
  tables := h.tables
  claims := h.claims
  partitions := h.partitions
  beyond := by
    intro q hq
    have hq : s.size ≤ q := hq
    rw [Log.messages_append, if_neg (by omega)]
    exact h.beyond q hq

/-- The end of partition `0` moves when a message is written there. -/
theorem newest0_append_zero (s : Topic) (m : Message) :
    newest0 { s with log := s.log.append 0 m } = s.newest0 + 1 := by
  show ((s.log.append 0 m) 0).newest = _
  unfold Log.append newest0 Partition.newest
  rw [update_self]
  show (s.log 0).oldest + ((s.log 0).records ++ [m]).length = _
  rw [length_append, length_singleton]
  omega

theorem newest0_append_of_ne (s : Topic) (hp : p ≠ 0) (m : Message) :
    newest0 { s with log := s.log.append p m } = s.newest0 := by
  show ((s.log.append p m) 0).newest = _
  unfold Log.append newest0
  rw [update_of_ne (Ne.symm hp)]

theorem ZeroInv.append_zero (h : s.ZeroInv) (hm : ∀ v, m = .request v → v.target.service? ≠ none) :
    ZeroInv { s with log := s.log.append 0 m } := by
  have hnewest := s.newest0_append_zero m
  -- Nobody has seen the new message.
  have hunseen : ∀ l, ¬ Seen { s with log := s.log.append 0 m } l := by
    intro l hl
    have hle : newest0 { s with log := s.log.append 0 m } ≤ (s.group.procs l).offset0 := hl
    have hold := h.offset0 l
    omega
  refine ⟨?_, ?_, ?_, ?_, ?_, ?_, ?_⟩
  · intro v hv
    rw [Log.messages_append, if_pos rfl, mem_append, mem_singleton] at hv
    rcases hv with hv | hv
    · exact h.targets v hv
    · exact hm v hv.symm
  · intro n
    rw [hnewest]
    exact Nat.le_succ_of_le (h.offset0 n)
  · intro n
    rw [hnewest]
    exact Nat.le_succ_of_le (h.max0 n)
  · exact fun l _ hl => absurd hl (hunseen l)
  · exact fun g _ _ l _ hl => absurd hl (hunseen l)
  · exact h.leads
  intro g hg hrecovery hseen
  rcases hseen with ⟨l, -, hl⟩ | hmax
  · exact absurd hl (hunseen l)
  rw [hnewest] at hmax
  have hold := h.max0 g.leader
  have hsame : (leading { s with log := s.log.append 0 m } g).max0 =
    (s.group.procs g.leader).max0 := rfl
  omega

theorem ZeroInv.append_of_ne (h : s.ZeroInv) (hp : p ≠ 0)
    (hrecovering : s.recovering = false) (m : Message) :
    ZeroInv { s with log := s.log.append p m } := by
  have hnewest := s.newest0_append_of_ne hp m
  have hwaiting : ∀ k v, Waiting (s.log.append p m) k v → Waiting s.log k v := by
    intro k v hw
    refine hw.of_grown ?_ fun q u hu => ?_
    · rw [Log.messages_append, if_neg (Ne.symm hp)]
    rw [Log.messages_append]
    split
    · rename_i hq
      exact mem_append_left _ (hq ▸ hu)
    · exact hu
  have hseen : ∀ l, Seen { s with log := s.log.append p m } l → s.Seen l := by
    intro l hl
    unfold Seen at hl
    rwa [hnewest] at hl
  -- No recovery is under way.
  have hnone : ∀ g, s.group.generation = some g → (s.leading g).recovery.isSome = true → False := by
    intro g hg hrecovery
    simp [recovering, hg, hrecovery] at hrecovering
  refine ⟨?_, ?_, ?_, ?_, ?_, ?_, ?_⟩
  · intro v hv
    rw [Log.messages_append, if_neg (Ne.symm hp)] at hv
    exact h.targets v hv
  · intro n
    rw [hnewest]
    exact h.offset0 n
  · intro n
    rw [hnewest]
    exact h.max0 n
  · exact fun l hl hs k v hw => h.seen l hl (hseen l hs) k v (hwaiting k v hw)
  · exact fun g hg hrec l hl hs k v hw => h.clean g hg hrec l hl (hseen l hs) k v (hwaiting k v hw)
  · exact fun g hg hrecovery => (hnone g hg hrecovery).elim
  · exact fun g hg hrecovery => (hnone g hg hrecovery).elim

/-! ## Members start and set up -/

theorem Bounds.grow (h : s.Bounds) (n : Nat) : Bounds { s with size := s.size + n } where
  size := Nat.lt_add_right n h.size
  tables := fun l m => Nat.lt_add_right n (h.tables l m)
  claims := fun g hg m p hp => Nat.lt_add_right n (h.claims g hg m p hp)
  partitions := fun m => Nat.lt_add_right n (h.partitions m)
  beyond := fun p hp => h.beyond p (Nat.le_trans (Nat.le_add_right _ n) hp)

theorem ZeroInv.grow (h : s.ZeroInv) (n : Nat) :
    ZeroInv { s with size := s.size + n } :=
  ⟨h.targets, h.offset0, h.max0, h.seen, h.clean, h.leads, h.covers⟩

section Dial

variable {s : Topic} (hg : s.group.GroupInv) (services : List String)
  (hn : n ∉ s.group.known)

include hg hn

theorem Bounds.dial (h : s.Bounds) : Bounds { s with group := s.group.start n services } where
  size := h.size
  tables := by
    intro l x
    rw [start_table]
    split
    · exact h.size
    · exact h.tables l x
  claims := h.claims
  partitions := by
    intro x
    rw [start_partition hg hn]
    exact h.partitions x
  beyond := h.beyond

theorem ZeroInv.dial (h : s.ZeroInv) : ZeroInv { s with group := s.group.start n services } := by
  -- The new process has seen nothing.
  have hseen : ∀ l k v, Waiting s.log k v → Seen { s with group := s.group.start n services } l →
      l ≠ n ∧ s.Seen l := by
    intro l k v hw hl
    have hl : s.newest0 ≤ ((s.group.start n services).procs l).offset0 := hl
    by_cases hln : l = n
    · rw [hln, start_self] at hl
      exact absurd hw (not_waiting_of_newest0 hl)
    · rw [start_of_ne hln] at hl
      exact ⟨hln, hl⟩
  have hoffers : ∀ x v, x ≠ n → Offers { s with group := s.group.start n services } x v →
      s.Offers x v := by
    rintro x v hx ⟨name, hname, hmem⟩
    rw [start_of_ne hx] at hmem
    exact ⟨name, hname, hmem⟩
  -- The members of the generation are older.
  have hold : ∀ g, s.group.generation = some g → ∀ x ∈ g.nodes, x ≠ n := by
    intro g hgen x hx hxn
    exact hn (hxn ▸ (hg.generation g hgen).known x hx)
  have hleading : ∀ g, s.group.generation = some g →
      (s.group.start n services).procs g.leader = s.group.procs g.leader := fun g hgen =>
    start_of_ne (hold g hgen _ (hg.generation g hgen).leader)
  refine ⟨h.targets, ?_, ?_, ?_, ?_, ?_, ?_⟩
  · intro l
    by_cases hln : l = n
    · rw [hln, start_self]
      exact Nat.zero_le _
    · rw [start_of_ne hln]
      exact h.offset0 l
  · intro l
    by_cases hln : l = n
    · rw [hln, start_self]
      exact Nat.zero_le _
    · rw [start_of_ne hln]
      exact h.max0 l
  · intro l hl hls k v hw x hx hknows hoffer
    obtain ⟨hln, hls⟩ := hseen l k v hw hls
    have hknown : (s.group.start n services).knows l x ≠ 0 := hknows
    rw [knows_start hg hn, if_neg hln] at hknown
    have hxn : x ≠ n := fun heq => hknown (heq ▸ knows_of_new hg hn l)
    exact h.seen l (present_of_start hln hl) hls k v hw x (present_of_start hxn hx) hknown
      (hoffers x v hxn hoffer)
  · intro g hgen hclean l hl hls k v hw x hx hoffer
    obtain ⟨hln, hls⟩ := hseen l k v hw hls
    have hclean : ((s.group.start n services).procs g.leader).recovery = none := hclean
    rw [hleading g hgen] at hclean
    exact h.clean g hgen hclean l (present_of_start hln hl) hls k v hw x hx
      (hoffers x v (hold g hgen x hx) hoffer)
  · intro g hgen hrecovery
    have hrecovery : ((s.group.start n services).procs g.leader).recovery.isSome = true := hrecovery
    rw [hleading g hgen] at hrecovery
    have hleads := h.leads g hgen hrecovery
    refine ⟨?_, ?_, ?_⟩
    · rw [hleading g hgen]
      exact hleads.nodes
    · intro name x
      rw [hleading g hgen, hleads.offered]
      refine and_congr_right fun hx => ?_
      rw [start_of_ne (hold g hgen x hx)]
    · rw [hleading g hgen]
      exact hleads.live
  · intro g hgen hrecovery hcond
    have hlead : leading { s with group := s.group.start n services } g = s.leading g :=
      hleading g hgen
    rw [hlead] at hrecovery hcond ⊢
    rcases hcond with ⟨l, hl, hls⟩ | hmax
    · have hls' : s.newest0 ≤ ((s.group.start n services).procs l).offset0 := hls
      by_cases hln : l = n
      · rw [hln, start_self] at hls'
        exact h.covers g hgen hrecovery (.inr (Nat.le_trans hls' (Nat.zero_le _)))
      · rw [start_of_ne hln] at hls'
        exact h.covers g hgen hrecovery (.inl ⟨l, present_of_start hln hl, hls'⟩)
    · exact h.covers g hgen hrecovery (.inr hmax)

end Dial

section SetUp

variable {s : Topic} (hg : s.group.GroupInv) (hgen : s.group.generation = some g)
  (nodes : List String)

include hg hgen

theorem Bounds.setUp (h : s.Bounds) : Bounds { s with group := s.group.setUp g nodes } := by
  have hcase : ∀ n, (s.group.setUp g nodes).partition n < s.size ∧
      ∀ x, ((s.group.setUp g nodes).procs n).node2partition x < s.size := by
    intro n
    by_cases hn : s.group.completes g nodes n = true
    · have hclean := (clean_of_completes hg hgen hn).2
      obtain ⟨p, hp, -⟩ := claims_of_clean hg hgen hclean (mem_of_completes hn)
      refine ⟨?_, fun x => ?_⟩
      · rw [setUp_partition hn hp]
        exact h.claims g hgen n p (by rw [hp]; exact mem_singleton_self p)
      by_cases hx : x ∈ g.nodes
      · obtain ⟨-, -, -, -, -, htable⟩ := setUp_of_completes hn
        obtain ⟨q, hq, -, -, hfold⟩ := claims_of_clean hg hgen hclean hx
        rw [htable, hfold]
        exact h.claims g hgen x q (by rw [hq]; exact mem_singleton_self q)
      · rw [setUp_table_of_not_mem hn hx]
        exact h.size
    · have hsame := setUp_of_not_completes hg.toNamed (Bool.not_eq_true _ ▸ hn)
      unfold Consumers.partition
      rw [hsame]
      exact ⟨h.partitions n, h.tables n⟩
  exact ⟨h.size, fun l => (hcase l).2, by simp [Consumers.setUp], fun n => (hcase n).1, h.beyond⟩

theorem ZeroInv.setUp (h : s.ZeroInv) : ZeroInv { s with group := s.group.setUp g nodes } := by
  have hframe := s.group.setUp_frame g nodes
  have hseen : ∀ l, Seen { s with group := s.group.setUp g nodes } l → s.Seen l := by
    intro l hl
    have hl : s.newest0 ≤ ((s.group.setUp g nodes).procs l).offset0 := hl
    rwa [(hframe l).2.1] at hl
  have hoffers : ∀ x v, Offers { s with group := s.group.setUp g nodes } x v → s.Offers x v := by
    rintro x v ⟨name, hname, hmem⟩
    exact ⟨name, hname, (hframe x).1 ▸ hmem⟩
  refine ⟨h.targets, ?_, ?_, ?_, by simp [Consumers.setUp], by simp [Consumers.setUp],
    by simp [Consumers.setUp]⟩
  · intro n
    rw [(hframe n).2.1]
    exact h.offset0 n
  · intro n
    rw [(hframe n).2.2.1]
    exact h.max0 n
  intro l hl hls k v hw x hx hknows hoffer
  by_cases hany : ∃ c, s.group.completes g nodes c = true
  · obtain ⟨c, hc⟩ := hany
    have hmem := (knows_setUp hg hgen hc hl hx hknows).1
    exact h.clean g hgen (clean_of_completes hg hgen hc).1 l (of_present_setUp hc hl).1
      (hseen l hls) k v hw x hmem (hoffers x v hoffer)
  -- Nothing has changed.
  have hnobody : ∀ n, s.group.completes g nodes n = false := by
    intro n
    rw [← Bool.not_eq_true]
    exact fun hn => hany ⟨n, hn⟩
  have hpresent : ∀ n, (s.group.setUp g nodes).Present n → s.group.Present n := by
    intro n hn
    have hmissed := hn.2
    simp only [Consumers.setUp, Bool.or_eq_false_iff] at hmissed
    exact ⟨hn.1, hmissed.1⟩
  have hprocs : ∀ n, (s.group.setUp g nodes).procs n = s.group.procs n := fun n =>
    setUp_of_not_completes hg.toNamed (hnobody n)
  unfold Consumers.knows Consumers.partition at hknows
  rw [hprocs, hprocs] at hknows
  exact h.seen l (hpresent l hl) (hseen l hls) k v hw x (hpresent x hx) hknows (hoffers x v hoffer)

end SetUp

/-! ## Planning -/

theorem of_hasMessages {max : Nat}
    (h : HasMessages (s.offsets failing) p max) : max = (s.log p).newest ∧ s.log.messages p ≠ [] := by
  obtain ⟨min, hoffsets, hlt⟩ := h
  unfold offsets at hoffsets
  split at hoffsets
  · simp at hoffsets
  rw [Option.some.injEq, Prod.mk.injEq] at hoffsets
  rw [← hoffsets.1, ← hoffsets.2] at hlt
  exact ⟨hoffsets.2.symm, (s.log p).oldest_lt_newest.mp hlt⟩

theorem hasMessages_of_mem (hknown : s.offsets failing p ≠ none) (h : s.log.messages p ≠ []) :
    HasMessages (s.offsets failing) p (s.log p).newest := by
  refine ⟨(s.log p).oldest, ?_, (s.log p).oldest_lt_newest.mpr h⟩
  unfold offsets at hknown ⊢
  split at hknown
  · exact absurd rfl hknown
  · rename_i hp
    rw [if_neg hp]

section Plan

variable {s : Topic} (hg : s.group.GroupInv) (hb : s.Bounds) (hz : s.ZeroInv)
  (hjoined : s.group.Joined leader members order order') {r : Except PlanError BalancePlan}
  (hplan : s.group.planned leader members order order' s.size (s.offsets failing) = (r, Q))
  (hpresent : ∀ n ∈ members.map Prod.snd, s.group.Present n)

include hg hjoined hplan

/-- A new member sets `offset0` back. -/
theorem plan_offset0 : Q.offset0 = if ∃ n ∈ members.map Prod.snd, s.group.knows leader n = 0
    then 0 else (s.group.procs leader).offset0 := by
  rw [(Process.plan_effect hplan).offset0, Process.merged_offset0 _ (infos_nodup hg.toNamed hjoined)]
  congr 1
  rw [eq_iff_iff]
  constructor
  · rintro ⟨v, hv, hknows⟩
    obtain ⟨m, hm, rfl⟩ := mem_map.mp hv
    obtain ⟨m', hm', rfl⟩ := mem_map.mp hm
    rw [hg.knows_eq] at hknows
    exact ⟨m'.2, mem_map_of_mem hm', hknows⟩
  · rintro ⟨n, hn, hknows⟩
    exact ⟨_, mem_infos hn, by rw [hg.knows_eq]; exact hknows⟩

include hz hpresent

/-- When the leader has seen the whole of partition `0`, it knew all the members before,
and none of them can serve a request that waits. -/
theorem leader_seen (hseen : s.newest0 ≤ Q.offset0)
    (hw : Waiting s.log k v) (hn : n ∈ members.map Prod.snd) :
    s.group.knows leader n ≠ 0 ∧ ¬ s.Offers n v := by
  rw [plan_offset0 hg hjoined hplan] at hseen
  split at hseen
  · exact absurd hw (not_waiting_of_newest0 hseen)
  · rename_i hknown
    have hknows : s.group.knows leader n ≠ 0 := fun hzero => hknown ⟨n, hn, hzero⟩
    exact ⟨hknows, hz.seen leader (hpresent leader hjoined.leader) hseen k v hw n (hpresent n hn)
      hknows⟩

include hb

/-- When the plan is clean, no member can serve a request that waits. -/
theorem clean_waiting (hr : r = .ok pl) (hclean : Q.recovery = none)
    (hw : Waiting s.log k v) (hn : n ∈ members.map Prod.snd) :
    ¬ s.Offers n v := by
  subst hr
  obtain ⟨-, ⟨-, -, hoffsets⟩ | ⟨hrecovery, -⟩⟩ := Process.plan_ok hplan
  · obtain ⟨hknown, hmax⟩ := hoffsets 0 hb.size
    have hmessages := hasMessages_of_mem hknown (ne_nil_of_mem hw.mem.1)
    have hle := (hmax _ hmessages).2 rfl
    rw [← (Process.plan_effect hplan).offset0] at hle
    exact (leader_seen hg hz hjoined hplan hpresent hle hw hn).2
  · rw [hclean] at hrecovery
    simp [Process.merged, Process.discard] at hrecovery

omit hz hpresent

theorem Bounds.plan : Bounds { s with group := s.group.afterPlan leader members r Q } := by
  have heffect := Process.plan_effect hplan
  have htable : ∀ n, Q.node2partition n < s.size := by
    intro n
    by_cases hmerged : ((s.group.procs leader).merged
        ((s.group.infos members).map Prod.snd)).node2partition n = 0
    · by_cases hQ : Q.node2partition n = 0
      · rw [hQ]
        exact hb.size
      · exact (heffect.new n hmerged hQ).1
    · rw [heffect.kept n hmerged, merged_eq hg.toNamed hjoined]
      split
      · unfold Consumers.knows
        split
        · exact hb.tables leader n
        · exact hb.partitions n
      · exact hb.size
  refine ⟨hb.size, ?_, ?_, ?_, hb.beyond⟩
  · intro l n
    rw [afterPlan_table]
    split
    · exact htable n
    · exact hb.tables l n
  · intro g hgen n p hp
    cases r with
    | error => simp [afterPlan] at hgen
    | ok pl =>
      simp only [afterPlan, Option.some.injEq] at hgen
      subst hgen
      by_cases hn : n ∈ members.map Prod.snd
      · obtain ⟨m, hm, rfl⟩ := mem_map.mp hn
        rw [claims_of_plan hg.toNamed hjoined pl hm] at hp
        cases hrecovery : Q.recovery with
        | none =>
          rw [(clean_apply hg.toNamed hjoined hplan rfl hrecovery hm).1, mem_singleton] at hp
          rw [hp]
          exact htable m.2
        | some =>
          rw [unclean_apply hg.toNamed hjoined hplan rfl (by simp [hrecovery]) hm] at hp
          split at hp
          · exact mem_range.mp (mem_filter.mp hp).1
          · simp at hp
      · rw [claims_of_not_mem] at hp
        · simp at hp
        · unfold Generation.nodes
          rwa [infos_nodes' hg.toNamed]
  · intro n
    show ((s.group.afterPlan leader members r Q).procs n).self.partition < s.size
    rw [afterPlan_self hplan]
    exact hb.partitions n

omit hb in
/-- What the leader of a recovery claims. -/
theorem claims_leader (hr : r = .ok pl) (hrecovery : Q.recovery ≠ none) :
    Generation.claims { leader := leader, members := s.group.infos members, plan := pl } leader =
      (range s.size).filter (fun p => decide (p = 0 ∨ Q.newest p > 0)) := by
  obtain ⟨m, hm, hlead⟩ := mem_map.mp hjoined.leader
  have hclaims := claims_of_plan hg.toNamed hjoined pl hm
  rw [hlead] at hclaims
  rw [hclaims, unclean_apply hg.toNamed hjoined hplan hr hrecovery hm, if_pos hlead]

/-- The plan of a recovery covers the log. -/
theorem plan_covers (hr : r = .ok pl) (hrecovery : Q.recovery ≠ none) :
    (Generation.read { leader := leader, members := s.group.infos members, plan := pl } Q).Covers
      s.log := by
  have hclaims := claims_leader hg hjoined hplan hr hrecovery
  subst hr
  obtain ⟨-, ⟨hclean, -⟩ | ⟨-, -, hnewest⟩⟩ := Process.plan_ok hplan
  · exact absurd hclean hrecovery
  have hread : ∀ p, s.log.messages p ≠ [] → p < s.size ∧ Q.newest p = (s.log p).newest ∧
      Q.newest p > 0 := by
    intro p hp
    have hlt : p < s.size := by
      by_contra hge
      exact hp (hb.beyond p (Nat.le_of_not_lt hge))
    obtain ⟨hknown, hpos, hmax⟩ := hnewest p hlt
    have hmessages := hasMessages_of_mem hknown hp
    exact ⟨hlt, hmax _ hmessages, hpos.mpr ⟨_, hmessages⟩⟩
  refine ⟨?_, ?_, ?_, ?_⟩
  · show (Generation.claims _ _).Pairwise (· < ·)
    rw [hclaims]
    exact pairwise_lt_range.filter _
  · show 0 ∈ Generation.claims _ _
    rw [hclaims, mem_filter, mem_range]
    exact ⟨hb.size, by simp⟩
  · intro p hp
    obtain ⟨hlt, -, hpos⟩ := hread p hp
    show p ∈ Generation.claims _ _
    rw [hclaims, mem_filter, mem_range, decide_eq_true_eq]
    exact ⟨hlt, .inr hpos⟩
  · exact fun p hp => (hread p hp).2.1

omit hb in
theorem plan_leads (hr : r = .ok pl) (hrecovery : Q.recovery ≠ none) :
    Leads (s.group.afterPlan leader members r Q)
      { leader := leader, members := s.group.infos members, plan := pl } := by
  have heffect := Process.plan_effect hplan
  have hclaims := claims_leader hg hjoined hplan hr hrecovery
  have hself : (s.group.afterPlan leader members r Q).procs leader = Q := update_self _ _ _
  have hnodes : Generation.nodes
      { leader := leader, members := s.group.infos members, plan := pl } = members.map Prod.snd :=
    infos_nodes' hg.toNamed
  have hnew := fun n hn => table_new hg.toNamed hjoined hplan (n := n) hn
  have hkeep := fun n hn => table_of_mem hg.toNamed hjoined hplan (n := n) hn
  refine ⟨?_, ?_, ?_⟩
  · intro n
    rw [hself, hnodes]
    constructor
    · intro hne
      by_contra hn
      rw [heffect.other n fun hmem => hn (hjoined.order.subset hmem), merged_eq hg.toNamed hjoined,
        if_neg hn] at hne
      exact hne rfl
    · intro hn
      subst hr
      exact (Process.plan_ok hplan).1 n (hjoined.order.symm.subset hn)
  · intro name n
    rw [hself, heffect.services, Process.mem_service2nodes_merged, afterPlan_self hplan, hnodes,
      ← hg.published n]
    constructor
    · rintro ⟨v, hv, hnode, hname⟩
      obtain ⟨m, hm, rfl⟩ := mem_map.mp hv
      obtain ⟨m', hm', rfl⟩ := mem_map.mp hm
      rw [userData_node hg.toNamed] at hnode
      subst hnode
      exact ⟨mem_map_of_mem hm', hname⟩
    · rintro ⟨hn, hname⟩
      exact ⟨_, mem_infos hn, userData_node hg.toNamed n, hname⟩
  · intro p hp
    rw [hself]
    have hp : p = 0 ∨ Q.newest p > 0 := by
      rw [hclaims, mem_filter, decide_eq_true_eq] at hp
      exact hp.2
    have hlive : Q.live p = true ↔ p ≠ 0 ∧
        ∃ n ∈ members.map Prod.snd, s.group.knows leader n = p := by
      rw [← live_iff hg.toNamed hjoined]
      subst hr
      obtain ⟨-, ⟨hclean, -⟩ | ⟨hsame, -⟩⟩ := Process.plan_ok hplan
      · exact absurd hclean hrecovery
      · unfold Process.live
        rw [hsame]
    rw [Bool.eq_iff_iff]
    show (decide (p ≠ 0) && Q.live p) = true ↔ (decide (p ≠ 0) &&
      (Generation.nodes { leader := leader, members := s.group.infos members, plan := pl }).any
        (fun n => decide (Q.node2partition n = p))) = true
    rw [hnodes, Bool.and_eq_true, Bool.and_eq_true, hlive, any_eq_true]
    simp only [decide_eq_true_eq]
    refine and_congr_right fun hp0 => ?_
    rw [and_iff_right hp0]
    constructor
    · rintro ⟨n, hn, hknows⟩
      exact ⟨n, hn, by rw [hkeep n hn (by rwa [hknows]), hknows]⟩
    rintro ⟨n, hn, hQ⟩
    by_cases hknows : s.group.knows leader n = 0
    · -- A new partition is empty.
      exfalso
      obtain ⟨hlt, -, hempty⟩ := hnew n hn hknows (by rwa [hQ])
      rw [hQ] at hlt hempty
      subst hr
      obtain ⟨-, ⟨hclean, -⟩ | ⟨-, -, hnewest⟩⟩ := Process.plan_ok hplan
      · exact hrecovery hclean
      · obtain ⟨max, hmax⟩ := (hnewest p hlt).2.1.mp (hp.resolve_left hp0)
        exact hempty max hmax
    · exact ⟨n, hn, by rw [← hkeep n hn hknows, hQ]⟩

include hz hpresent

theorem ZeroInv.plan : ZeroInv { s with group := s.group.afterPlan leader members r Q } := by
  have heffect := Process.plan_effect hplan
  have hself : (s.group.afterPlan leader members r Q).procs leader = Q := update_self _ _ _
  have hother : ∀ l, l ≠ leader → (s.group.afterPlan leader members r Q).procs l =
      s.group.procs l := fun l hl => update_of_ne hl _ _
  have hmember := fun n => @mem_of_present_afterPlan s.group leader members r Q n
  have hoffers : ∀ n v, Offers { s with group := s.group.afterPlan leader members r Q } n v →
      s.Offers n v := by
    rintro n v ⟨name, hname, hmem⟩
    rw [afterPlan_self hplan] at hmem
    exact ⟨name, hname, hmem⟩
  have hgeneration : ∀ g, (s.group.afterPlan leader members r Q).generation = some g →
      ∃ pl, r = .ok pl ∧ g = { leader := leader, members := s.group.infos members, plan := pl } := by
    intro g hgen
    cases r with
    | error => simp [afterPlan] at hgen
    | ok pl =>
      simp only [afterPlan, Option.some.injEq] at hgen
      exact ⟨pl, rfl, hgen.symm⟩
  refine ⟨hz.targets, ?_, ?_, ?_, ?_, ?_, ?_⟩
  · intro l
    by_cases hl : l = leader
    · rw [hl, hself, plan_offset0 hg hjoined hplan]
      split
      · exact Nat.zero_le _
      · exact hz.offset0 leader
    · rw [hother l hl]
      exact hz.offset0 l
  · intro l
    by_cases hl : l = leader
    · rw [hl, hself]
      rcases heffect.max0 with hmax | hmax
      · rw [hmax]
        exact hz.max0 leader
      · rw [(of_hasMessages hmax).1]
        exact Nat.le_refl _
    · rw [hother l hl]
      exact hz.max0 l
  · intro l hl hls k v hw n hn hknows hoffer
    have hls : s.newest0 ≤ ((s.group.afterPlan leader members r Q).procs l).offset0 := hls
    have hmem := hmember n hn
    by_cases hlead : l = leader
    · rw [hlead, hself] at hls
      exact (leader_seen hg hz hjoined hplan hpresent hls hw hmem).2 (hoffers n v hoffer)
    rw [hother l hlead] at hls
    have hknown : (s.group.afterPlan leader members r Q).knows l n ≠ 0 := hknows
    rw [knows_afterPlan hg.toNamed hjoined hplan l hmem, if_neg hlead] at hknown
    exact hz.seen l (hpresent l (hmember l hl)) hls k v hw n (hpresent n hmem) hknown
      (hoffers n v hoffer)
  · intro g hgen hclean l _ _ k v hw n hn hoffer
    obtain ⟨pl, hr, rfl⟩ := hgeneration g hgen
    have hclean : ((s.group.afterPlan leader members r Q).procs leader).recovery = none := hclean
    rw [hself] at hclean
    unfold Generation.nodes at hn
    rw [infos_nodes' hg.toNamed] at hn
    exact clean_waiting hg hb hz hjoined hplan hpresent hr hclean hw hn (hoffers n v hoffer)
  · intro g hgen hrecovery
    obtain ⟨pl, hr, rfl⟩ := hgeneration g hgen
    have hrecovery : ((s.group.afterPlan leader members r Q).procs leader).recovery.isSome = true :=
      hrecovery
    rw [hself] at hrecovery
    exact plan_leads hg hjoined hplan hr (Option.isSome_iff_ne_none.mp hrecovery)
  · intro g hgen hrecovery _
    obtain ⟨pl, hr, rfl⟩ := hgeneration g hgen
    have hlead : leading { s with group := s.group.afterPlan leader members r Q }
        { leader := leader, members := s.group.infos members, plan := pl } = Q := hself
    rw [hlead] at hrecovery ⊢
    exact plan_covers hg hb hjoined hplan hr (Option.isSome_iff_ne_none.mp hrecovery)

end Plan

/-! ## Recovery -/

section Recovery

variable {s : Topic} (hleads : Leads s.group g)

include hleads

/-- The leader routes to the partitions of the members. -/
theorem attached_of_leads :
    ((s.leading g).tables cached).Attached (g.attached (s.leading g)) where
  offered := fun name n hn => (hleads.nodes n).mpr ((hleads.offered name n).mp hn).1
  live := by
    intro n hn
    have hmem := (hleads.nodes n).mp hn
    show (decide ((s.leading g).node2partition n ≠ 0) && g.nodes.any (fun x =>
      decide ((s.leading g).node2partition x = (s.leading g).node2partition n))) = true
    rw [Bool.and_eq_true, any_eq_true]
    exact ⟨decide_eq_true hn, n, hmem, by simp⟩

/-- The recovery as if the map `recovery` had the partitions of the new nodes too. -/
theorem recovery_eq : s.recovery cached g store cs =
    recover ((s.leading g).tables cached) (g.attached (s.leading g)) (g.read (s.leading g)) cs
      (.start s.log store) :=
  (recover_congr hleads.live _ cs _).2

/-- What a recovery writes to partition `0` asks for a service. -/
theorem service_of_sent (h : s.recovery cached g store cs = (r, w))
    (hv : (0, .request v) ∈ w.sent) : v.target.service? ≠ none := by
  rw [recovery_eq hleads] at h
  have hrestarted := (recover_sent h 0 _ hv).restarted
  obtain ⟨node, name, hname, -⟩ := hrestarted.routed
  simp [hname]

/-- A recovery writes to partitions of the topic. -/
theorem lt_of_sent (hb : s.Bounds) (h : s.recovery cached g store cs = (r, w)) (hm : (p, m) ∈ w.sent) :
    p < s.size := by
  rw [recovery_eq hleads] at h
  rcases (recover_sent h p m hm).live_or_zero (attached_of_leads hleads) with hlive | rfl
  · have hlive : (decide (p ≠ 0) && g.nodes.any (fun x =>
        decide ((s.leading g).node2partition x = p))) = true := hlive
    rw [Bool.and_eq_true, any_eq_true] at hlive
    obtain ⟨-, n, -, hn⟩ := hlive
    rw [decide_eq_true_eq] at hn
    rw [← hn]
    exact hb.tables g.leader n
  · exact hb.size

/-- After a recovery that completes and leaves partition `0` as it is, no member can
serve a request that waits there. -/
theorem not_offers_of_recovery (hcovers : (g.read (s.leading g)).Covers s.log)
    (h : s.recovery cached g store cs = (.ok (), w))
    (hlog : Settleable ((s.leading g).tables cached) (s.leading g).liveSet
      ((g.read (s.leading g)).reads s.log)) (hzero : ∀ m, (0, m) ∉ w.sent)
    (hw : Waiting w.log k v) (hn : n ∈ g.nodes) : ¬ s.Offers n v := by
  have ht : ((s.leading g).tables cached).Attached (g.attached (s.leading g)) :=
    attached_of_leads hleads
  rw [recovery_eq hleads] at h
  have hlog : Settleable ((s.leading g).tables cached) (g.attached (s.leading g))
      ((g.read (s.leading g)).reads s.log) := by
    refine hlog.congr fun pm hpm => hleads.live pm.1 ?_
    obtain ⟨p, hp, hmem⟩ := mem_flatMap.mp hpm
    obtain ⟨m, -, rfl⟩ := mem_map.mp hmem
    exact hp
  -- Partition `0` has the messages that were read.
  have hsame : w.log.messages 0 = s.log.messages 0 := by
    rw [(recover_written h).1, Log.messages_deleteRecords,
      if_neg (not_mem_offsetsForDeletion (.inr rfl)), Log.messages_appendAll]
    have hnil : w.sent.filter (fun pm => decide (pm.1 = 0)) = [] := by
      rw [filter_eq_nil_iff]
      rintro ⟨p, m⟩ hm hp
      rw [decide_eq_true_eq] at hp
      exact hzero m (hp ▸ hm)
    rw [hnil, map_nil, append_nil]
  obtain ⟨hv, hid⟩ := hw.mem
  have hlast : lastMax (fun pv => pv.2.sequence)
      (requestsIn isZero ((g.read (s.leading g)).reads s.log) k) = some (0, v) := by
    rw [requestsIn_isZero_reads hcovers]
    have hlast := hw.last
    unfold Log.zeroRequests at hlast
    rwa [hsame] at hlast
  rw [hsame] at hv
  have hread := mem_requestsOf.mpr ⟨(mem_reads hcovers).mpr hv, hid⟩
  have hunanswered : ¬ Answered ((g.read (s.leading g)).reads s.log) k := by
    intro hans
    obtain ⟨q, -, m, hm, hrecord⟩ :=
      record_kept hcovers h ((answered_reads hcovers).mp hans) hv hid (.inr rfl)
    exact hw.unanswered ⟨q, m, hm, hrecord⟩
  -- A message in a live partition is left there, and it is not as late as `v`.
  have hlater : ∀ p u, (g.attached (s.leading g)).mem p = true →
      (.request u ∈ s.log.messages p ∨ (p, .request u) ∈ w.sent) →
      u.requestID = k → u.sequence < v.sequence := by
    intro p u hp hu huid
    have hp0 : p ≠ 0 := by
      rintro rfl
      rw [(g.attached (s.leading g)).zero] at hp
      simp at hp
    exact hw.later p u hp0
      ((mem_messages_recover h).mpr ⟨hu, not_mem_offsetsForDeletion (.inl hp)⟩) huid
  have hnotHeld : ¬ HeldLive (g.attached (s.leading g)) ((g.read (s.leading g)).reads s.log) k := by
    rintro ⟨⟨p, u⟩, hu, hp, hseq⟩
    obtain ⟨hu, huid⟩ := mem_requestsOf.mp hu
    have hlt := hlater p u hp (.inl ((mem_reads hcovers).mp hu)) huid
    have hle := sequence_le_maxSeq hread
    simp only at hseq hle
    omega
  have horphan : Orphan (g.attached (s.leading g)) ((g.read (s.leading g)).reads s.log) k :=
    ⟨hunanswered, hnotHeld, hlog.restarts k _ hread hunanswered hnotHeld⟩
  obtain ⟨qw, hlatest⟩ := exists_latestRead hread
  rcases orphan_outcome ht h horphan hlatest with ⟨p, m, hsent, hrecord, hmid⟩ |
      ⟨p, u, hp, hsent, huid⟩ | ⟨-, u, hsent, -⟩ | ⟨hidle, hheld, -⟩
  · have hp := (recover_sent h p m hsent).live_or_zero ht
    have hm := (mem_messages_recover h).mpr ⟨.inr hsent, not_mem_offsetsForDeletion hp⟩
    exact absurd ⟨p, m, hm, hrecord, hmid⟩ hw.unanswered
  · have hlt := hlater p u hp (.inr hsent) huid
    have hseq := (recover_sent h p _ hsent).restarted.sequence
    have hle := hlog.zero_le k hunanswered hnotHeld v hread
    rw [huid] at hseq
    omega
  · exact absurd hsent (hzero _)
  -- The copy in partition `0` asks for a service that no node offers.
  have hidle := hlog.idle k hunanswered hnotHeld qw hlatest hidle hheld (0, v) hlast
  rintro ⟨name, hname, hoffered⟩
  unfold Idle at hidle
  simp only [hname] at hidle
  have hmem := (hleads.offered name n).mpr ⟨hn, hoffered⟩
  have hnil : (s.group.procs g.leader).service2nodes name = [] := hidle
  rw [hnil] at hmem
  simp at hmem

omit hleads in
/-- The log after a recovery that was interrupted. -/
theorem log_of_interrupted
    (h : s.recovery cached g store cs = (.error e, w)) : w.log = s.log.appendAll w.sent := by
  unfold recovery recover at h
  rw [World.start_log] at h
  cases hperform : perform ((s.leading g).tables cached) cs
      (recoverActions (s.leading g).liveSet (g.read (s.leading g)) s.log) (.start s.log store) with
  | mk res w₁ =>
    have hwritten := (perform_written (n := (recoverActions (s.leading g).liveSet
      (g.read (s.leading g)) s.log).length) (by rw [take_length, hperform])).1
    rw [hperform] at h
    cases res with
    | ok => simp at h
    | error =>
      simp only [Prod.mk.injEq] at h
      rw [← h.2]
      exact hwritten

/-- The log after a recovery that completed. -/
theorem newest0_of_recovered (h : s.recovery cached g store cs = (.ok (), w)) :
    (w.log 0).newest = ((s.log.appendAll w.sent) 0).newest := by
  rw [recovery_eq hleads] at h
  rw [(recover_written h).1]
  unfold Log.deleteRecords
  rw [if_neg (not_mem_offsetsForDeletion (.inr rfl))]

end Recovery

/-- A recovery ends, completed or not: the invariant of the log. -/
theorem Bounds.written (hb : s.Bounds) (hsent : ∀ p m, (p, m) ∈ sent → p < s.size)
    (hlog : ∀ p, ∀ m ∈ log.messages p, m ∈ (s.log.appendAll sent).messages p)
    (hprocs : ∀ n, (group.procs n).self = (s.group.procs n).self ∧
      (group.procs n).node2partition = (s.group.procs n).node2partition)
    (hgeneration : group.generation = none) :
    Bounds { s with group := group, log := log } where
  size := hb.size
  tables := fun l n => by
    rw [(hprocs l).2]
    exact hb.tables l n
  claims := fun g hg => by
    rw [hgeneration] at hg
    simp at hg
  partitions := fun n => by
    show (group.procs n).self.partition < s.size
    rw [(hprocs n).1]
    exact hb.partitions n
  beyond := fun p hp => by
    rw [eq_nil_iff_forall_not_mem]
    intro m hm
    rcases Log.mem_messages_appendAll.mp (hlog p m hm) with hold | hnew
    · rw [hb.beyond p hp] at hold
      simp at hold
    · exact Nat.not_lt.mpr hp (hsent p m hnew)

/-- The end of a recovery changes `offset0` of the leader only. -/
theorem step_recovered (hgen : group.generation = some g)
    (h : group.step .recovered = some group') : group'.generation = none ∧ (∀ n, group'.Present n ↔
      group.Present n) ∧ ∀ n, (group'.procs n).self = (group.procs n).self ∧ (group'.procs
      n).node2partition = (group.procs n).node2partition ∧ (group'.procs n).max0 = (group.procs
      n).max0 ∧ (group'.procs n).offset0 = if n = g.leader then (group.procs g.leader).max0 else
      (group.procs n).offset0 := by
  simp only [Consumers.step, hgen] at h
  obtain ⟨-, rfl⟩ := of_guard h
  refine ⟨rfl, fun n => Iff.rfl, fun n => ?_⟩
  by_cases hn : n = g.leader
  · subst hn
    rw [if_pos rfl]
    simp only [update_self]
    exact ⟨rfl, rfl, rfl, rfl⟩
  · rw [if_neg hn]
    simp only [update_of_ne hn]
    exact ⟨trivial, trivial, trivial, trivial⟩

section Ended

variable {s : Topic} (hg : s.group.GroupInv) (hb : s.Bounds) (hz : s.ZeroInv)
  (hgen : s.group.generation = some g) (hrecovery : (s.leading g).recovery.isSome = true)

include hg hz hgen hrecovery

/-- A recovery completes. -/
theorem ZeroInv.recovered (h : s.recovery cached g store cs = (.ok (), w))
    (hlog : Settleable ((s.leading g).tables cached) (s.leading g).liveSet
      ((g.read (s.leading g)).reads s.log)) (hstep : s.group.step .recovered = some group) :
    ZeroInv { s with group := group, log := w.log } := by
  have hleads := hz.leads g hgen hrecovery
  have hok := hg.generation g hgen
  have hnewest := newest0_of_recovered hleads h
  have hle : s.newest0 ≤ (w.log 0).newest := by
    rw [hnewest]
    exact newest_le_appendAll
  obtain ⟨hgeneration, hpresent, hprocs⟩ := step_recovered hgen hstep
  have hknows : ∀ l n, group.knows l n = s.group.knows l n := by
    intro l n
    unfold Consumers.knows Consumers.partition
    rw [(hprocs n).1, (hprocs l).2.1]
  refine ⟨?_, ?_, ?_, ?_, ?_, ?_, ?_⟩
  · intro v hv
    rw [recovery_eq hleads] at h
    rcases ((mem_messages_recover h).mp hv).1 with hold | hsent
    · exact hz.targets v hold
    · rw [← recovery_eq hleads] at h
      exact service_of_sent hleads h hsent
  · intro n
    rw [(hprocs n).2.2.2]
    split
    · exact Nat.le_trans (hz.max0 g.leader) hle
    · exact Nat.le_trans (hz.offset0 n) hle
  · intro n
    rw [(hprocs n).2.2.1]
    exact Nat.le_trans (hz.max0 n) hle
  · intro l hl hls k v hw n hn hknown hoffer
    have hls : (w.log 0).newest ≤ (group.procs l).offset0 := hls
    rw [(hprocs l).2.2.2] at hls
    -- Nothing was written to partition `0`, so the leader has read all of it.
    have hcond : (∃ l, s.group.Present l ∧ s.Seen l) ∨ s.newest0 ≤ (s.leading g).max0 := by
      split at hls
      · exact .inr (Nat.le_trans hle hls)
      · exact .inl ⟨l, (hpresent l).mp hl, Nat.le_trans hle hls⟩
    have hsame : (w.log 0).newest ≤ s.newest0 := by
      split at hls
      · exact Nat.le_trans hls (hz.max0 g.leader)
      · exact Nat.le_trans hls (hz.offset0 l)
    rw [hnewest] at hsame
    have hzero := (messages_zero_appendAll hsame).1
    have hmem : n ∈ g.nodes := by
      by_contra hnot
      obtain ⟨hpart, -, htable⟩ := hok.late n ((hpresent n).mp hn) hnot
      rw [hknows] at hknown
      apply hknown
      unfold Consumers.knows
      rw [if_pos hpart]
      exact htable l
    refine not_offers_of_recovery hleads (hz.covers g hgen hrecovery hcond) h hlog hzero hw hmem ?_
    obtain ⟨name, hname, hservice⟩ := hoffer
    exact ⟨name, hname, (hprocs n).1 ▸ hservice⟩
  · intro g' hg'
    simp [hgeneration] at hg'
  · intro g' hg'
    simp [hgeneration] at hg'
  · intro g' hg'
    simp [hgeneration] at hg'

end Ended

/-- Messages are written between two generations. -/
theorem ZeroInv.appendAll (h : s.ZeroInv) (hgen : s.group.generation = none)
    (hsent : ∀ v, (0, .request v) ∈ sent → v.target.service? ≠ none) :
    ZeroInv { s with log := s.log.appendAll sent } := by
  have hle : s.newest0 ≤ newest0 { s with log := s.log.appendAll sent } := newest_le_appendAll
  refine ⟨?_, ?_, ?_, ?_, by simp [hgen], by simp [hgen], by simp [hgen]⟩
  · intro v hv
    rcases Log.mem_messages_appendAll.mp hv with hold | hnew
    · exact h.targets v hold
    · exact hsent v hnew
  · exact fun n => Nat.le_trans (h.offset0 n) hle
  · exact fun n => Nat.le_trans (h.max0 n) hle
  · intro l hl hls k v hw
    have hsame := (messages_zero_appendAll (Nat.le_trans hls (h.offset0 l))).2
    refine h.seen l hl (Nat.le_trans hle hls) k v (hw.of_grown hsame fun p m hm => ?_)
    exact Log.mem_messages_appendAll.mpr (.inl hm)

/-! ## All histories -/

/-- No process that missed a generation takes part in a later one, and a recovery that
completes has found a log that it can settle. -/
def Orderly (cached : Bool) (s : Topic) : TopicEvent → Prop
  | .plan leader members order order' failing =>
    NoReturn s.group (.plan leader members order order' s.size (s.offsets failing))
  | .recover store cs => ∀ g ∈ s.group.generation,
    (s.recovery cached g store cs).1.isOk = true →
      Settleable ((s.leading g).tables cached) (s.leading g).liveSet
        ((g.read (s.leading g)).reads s.log)
  | _ => True

instance (cached : Bool) (s : Topic) : (e : TopicEvent) → Decidable (Orderly cached s e)
  | .plan leader members order order' failing => inferInstanceAs
    (Decidable (NoReturn s.group (.plan leader members order order' s.size (s.offsets failing))))
  | .recover .. => inferInstanceAs (Decidable (∀ g ∈ s.group.generation, _))
  | .dial .. | .grow .. | .setup .. | .append .. => inferInstanceAs (Decidable True)

/-- What holds in every state of an orderly history. -/
structure Inv (s : Topic) : Prop where
  group : s.group.GroupInv
  bounds : s.Bounds
  zero : s.ZeroInv

theorem Inv.step (h : s.Inv)
    (hok : Orderly cached s e) (hstep : step cached s e = some s') : s'.Inv := by
  cases e with
  | dial n services =>
    simp only [Topic.step, Option.map_eq_some_iff] at hstep
    obtain ⟨group, hgroup, rfl⟩ := hstep
    refine ⟨h.group.step (e := .dial n services) trivial hgroup, ?_, ?_⟩ <;>
      simp only [Consumers.step] at hgroup <;> split at hgroup
    · cases hgroup
      exact h.bounds.dial h.group services (by assumption)
    · simp at hgroup
    · cases hgroup
      exact h.zero.dial h.group services (by assumption)
    · simp at hgroup
  | grow n =>
    cases hstep
    exact ⟨h.group, h.bounds.grow n, h.zero.grow n⟩
  | plan leader members order order' failing =>
    simp only [Topic.step, Option.map_eq_some_iff] at hstep
    obtain ⟨group, hgroup, rfl⟩ := hstep
    have hinv := h.group.step (e := .plan leader members order order' s.size (s.offsets failing)) hok
      hgroup
    obtain ⟨hjoined, hgroup⟩ := Option.ite_none_right_eq_some.mp hgroup
    have hplan := (Prod.eta (s.group.planned leader members order order' s.size
      (s.offsets failing))).symm
    have hgroup := Option.some.inj hgroup
    subst hgroup
    exact ⟨hinv, h.bounds.plan h.group hjoined hplan, h.zero.plan h.group h.bounds hjoined hplan
      fun n hn => ⟨hjoined.known n hn, hok n hn⟩⟩
  | setup nodes =>
    simp only [Topic.step, Option.map_eq_some_iff] at hstep
    obtain ⟨group, hgroup, rfl⟩ := hstep
    have hinv := h.group.step (e := .setup nodes) trivial hgroup
    simp only [Consumers.step] at hgroup
    split at hgroup
    · simp at hgroup
    rename_i g hgen
    have hgroup := Option.some.inj hgroup
    subst hgroup
    exact ⟨hinv, h.bounds.setUp h.group hgen nodes, h.zero.setUp h.group hgen nodes⟩
  | recover =>
    simp only [Topic.step] at hstep
    split at hstep
    · simp at hstep
    rename_i g hgen
    obtain ⟨hrecovery, hstep⟩ := Option.ite_none_right_eq_some.mp hstep
    have hleads := h.zero.leads g hgen hrecovery
    split at hstep
    · rename_i w hrecover
      rw [Option.map_eq_some_iff] at hstep
      obtain ⟨group, hgroup, rfl⟩ := hstep
      refine ⟨h.group.step (e := .recovered) trivial hgroup, ?_, ?_⟩
      · refine h.bounds.written (fun p m hm => lt_of_sent hleads h.bounds hrecover hm)
          (fun p m hm => ?_) (fun n => ?_) ?_
        · rw [recovery_eq hleads] at hrecover
          exact Log.mem_messages_appendAll.mpr ((mem_messages_recover hrecover).mp hm).1
        · obtain ⟨hself, htable, -⟩ := (step_recovered hgen hgroup).2.2 n
          exact ⟨hself, htable⟩
        · exact (step_recovered hgen hgroup).1
      · exact h.zero.recovered h.group hgen hrecovery hrecover
          (hok g hgen (hrecover ▸ rfl)) hgroup
    · rename_i e w hrecover
      rw [Option.map_eq_some_iff] at hstep
      obtain ⟨group, hgroup, rfl⟩ := hstep
      have hinv := h.group.step (e := .setup []) trivial hgroup
      simp only [Consumers.step, hgen] at hgroup
      have hgroup := Option.some.inj hgroup
      subst hgroup
      rw [log_of_interrupted hrecover]
      refine ⟨hinv, ?_, ?_⟩
      · exact (h.bounds.setUp h.group hgen []).written (fun p m hm => lt_of_sent (s := s) hleads
          h.bounds hrecover hm) (fun p m hm => hm) (fun n => ⟨rfl, rfl⟩) rfl
      · exact (h.zero.setUp h.group hgen []).appendAll rfl
          fun v hv => service_of_sent hleads hrecover hv
  | append p m =>
    obtain ⟨haccepts, rfl⟩ := of_guard hstep
    simp only [accepts, Bool.and_eq_true, decide_eq_true_eq] at haccepts
    refine ⟨h.group, h.bounds.append haccepts.1 m, ?_⟩
    by_cases hp : p = 0
    · subst hp
      refine h.zero.append_zero fun v hv => ?_
      subst hv
      simpa [Option.isSome_iff_ne_none] using haccepts.2
    · refine h.zero.append_of_ne hp ?_ m
      simpa [hp] using haccepts.2

theorem inv_reachable (h : Reachable (Topic.step cached) (Orderly cached) .init s) : s.Inv :=
  h.invariant ⟨groupInv_init, bounds_init, zeroInv_init⟩
    fun _ _ _ _ hinv hok hstep => hinv.step hok hstep

/-- The latest message of a request is in partition `0` and in no other. -/
theorem waiting_of_latest (hb : s.Bounds)
    (hlatest : latestRead ((Claims.ofPlan s.size s.log).reads s.log) k = some (0, v))
    (hunanswered : ¬ s.log.Answered k) : Waiting s.log k v := by
  have hcovers := covers_ofPlan hb.size hb.beyond
  obtain ⟨rest, hreads, hrest⟩ := requestsOf_reads hcovers k
  unfold latestRead at hlatest
  rw [hreads] at hlatest
  obtain ⟨hlast, hlater⟩ := lastMax_of_append _ hlatest fun hmem => hrest _ hmem rfl
  refine ⟨hlast, hunanswered, fun p u hp hu hid => ?_⟩
  have hread := mem_requestsOf.mpr ⟨(mem_reads hcovers).mpr hu, hid⟩
  rw [hreads, mem_append] at hread
  rcases hread with hzero | hmem
  · obtain ⟨m, -, hreq⟩ := mem_filterMap.mp hzero
    exact absurd (requestOf_partition hreq) hp
  · exact hlater _ hmem

/-- In every orderly history, a clean plan leaves no request in partition `0` that a
member could serve. -/
theorem clean_plan_leaves_unservable {cached : Bool} {s : Topic}
    (h : Reachable (Topic.step cached) (Orderly cached) .init s) {leader : String}
    {members : List (String × String)} {order order' : List String} {failing : List Nat}
    (hjoined : s.group.Joined leader members order order')
    (hok : Orderly cached s (.plan leader members order order' failing)) {pl : BalancePlan}
    {Q : Process}
    (hplan : s.group.planned leader members order order' s.size (s.offsets failing) = (.ok pl, Q))
    (hclean : Q.recovery = none) {k : String} {p : Nat} {v : Request}
    (hunanswered : ¬ s.log.Answered k)
    (hlatest : latestRead ((Claims.ofPlan s.size s.log).reads s.log) k = some (p, v))
    (hlive : ∀ m ∈ members, p ∉ pl m.1) :
    ∃ name, v.target.service? = some name ∧
      ∀ m ∈ members, name ∉ (s.group.procs m.2).self.services := by
  obtain ⟨hg, hb, hz⟩ := inv_reachable h
  have hpresent : ∀ n ∈ members.map Prod.snd, s.group.Present n := fun n hn =>
    ⟨hjoined.known n hn, hok n hn⟩
  -- A partition that is neither empty nor `0` belongs to a member.
  have hp : p = 0 := by
    by_contra hp
    have hread := (mem_requestsOf.mp (latestRead_mem hlatest)).1
    have hmem := (mem_reads (covers_ofPlan hb.size hb.beyond)).mp hread
    have hlt : p < s.size := by
      by_contra hge
      rw [hb.beyond p (Nat.le_of_not_lt hge)] at hmem
      simp at hmem
    obtain ⟨-, ⟨-, -, hoffsets⟩ | ⟨hrecovery, -⟩⟩ := Process.plan_ok hplan
    · obtain ⟨hknown, hmax⟩ := hoffsets p hlt
      have hmerged := (hmax _ (hasMessages_of_mem hknown (List.ne_nil_of_mem hmem))).1 hp
      obtain ⟨-, n, hn, hknows⟩ := (live_iff hg.toNamed hjoined).mp hmerged
      obtain ⟨m, hm, rfl⟩ := List.mem_map.mp hn
      apply hlive m hm
      rw [(clean_apply hg.toNamed hjoined hplan rfl hclean hm).1,
        table_of_mem hg.toNamed hjoined hplan hn (by rwa [hknows]), hknows]
      exact List.mem_singleton_self p
    · rw [hclean] at hrecovery
      simp [Process.merged, Process.discard] at hrecovery
  subst hp
  have hw := waiting_of_latest hb hlatest hunanswered
  obtain ⟨name, hname⟩ := Option.ne_none_iff_exists'.mp (hz.targets v hw.mem.1)
  refine ⟨name, hname, fun m hm hservice => ?_⟩
  exact clean_waiting hg hb hz hjoined hplan hpresent rfl hclean hw (List.mem_map_of_mem hm)
    ⟨name, hname, hservice⟩

/-- The node `n1` offers nothing.  It recovers once, and the request stays in
partition `0`. -/
def unservedRun : List TopicEvent :=
  [.grow 2, .dial "n1" [], .plan "n1" [("m1", "n1")] ["n1"] ["n1"] [], .setup ["n1"],
    .append 0 (.request (actorCall "k" "A" 0 "")),
    .plan "n1" [("m1", "n1")] ["n1"] ["n1"] [], .recover .empty calm]

theorem clean_plan_leaves_unserved : ∃ s, run (step true) .init unservedRun = some s ∧
    ∃ name, (actorCall "k" "A" 0 "").target.service? = some name ∧
      ∀ m ∈ [("m1", "n1")], name ∉ (s.group.procs m.2).self.services := by
  have hok : runOk (step true) (Orderly true) .init unservedRun = true := by decide +kernel
  obtain ⟨s, hrun, hs⟩ := reachable_of_run .init hok
  have hjoined := eq_of_run (fun s : Topic =>
    decide (s.group.Joined "n1" [("m1", "n1")] ["n1"] ["n1"])) (a := true) hrun (by decide +kernel)
  have hnoReturn := eq_of_run (fun s =>
    decide (Orderly true s (.plan "n1" [("m1", "n1")] ["n1"] ["n1"] []))) (a := true) hrun (by decide +kernel)
  have hclean := eq_of_run (fun s =>
    let r := s.group.planned "n1" [("m1", "n1")] ["n1"] ["n1"] s.size (s.offsets [])
    (r.1.isOk, r.1.toOption.map (fun pl => pl "m1"), r.2.recovery.isNone))
    (a := (true, some [1], true)) hrun (by decide +kernel)
  have hlatest := eq_of_run (fun s => latestRead ((Claims.ofPlan s.size s.log).reads s.log) "k")
    (a := some (0, actorCall "k" "A" 0 "")) hrun (by decide +kernel)
  have hanswered := eq_of_run (fun s =>
    decide (Answered ((Claims.ofPlan s.size s.log).reads s.log) "k")) (a := false) hrun (by decide +kernel)
  simp only [decide_eq_true_eq] at hjoined hnoReturn
  rw [decide_eq_false_iff_not] at hanswered
  cases hplan : s.group.planned "n1" [("m1", "n1")] ["n1"] ["n1"] s.size (s.offsets []) with
  | mk r =>
    rw [hplan] at hclean
    simp only [Prod.mk.injEq] at hclean
    cases r with
    | error => simp [Except.isOk, Except.toBool] at hclean
    | ok pl =>
      obtain ⟨-, hpl, hrecovery⟩ := hclean
      have hbounds := (inv_reachable hs).bounds
      refine ⟨s, hrun, clean_plan_leaves_unservable hs hjoined hnoReturn hplan
        (Option.isNone_iff_eq_none.mp hrecovery) ?_ hlatest ?_⟩
      · exact fun hans => hanswered
          ((answered_reads (covers_ofPlan hbounds.size hbounds.beyond)).mpr hans)
      · intro m hm
        rw [List.mem_singleton.mp hm]
        have hpl : some (pl "m1") = some [1] := hpl
        rw [Option.some.inj hpl]
        decide

/-- The node `n2` offers the service of the request.  It is expelled, and the request is
written to partition `0` and recovered in vain before `n2` comes back. -/
def comeBackRun : List TopicEvent :=
  [.grow 2, .dial "n1" [], .dial "n2" ["a"],
    .plan "n1" [("m1", "n1"), ("m2", "n2")] ["n1", "n2"] ["n1", "n2"] [], .setup ["n1", "n2"],
    .plan "n1" [("m1", "n1")] ["n1"] ["n1"] [], .setup ["n1"],
    .append 0 (.request (actorCall "k" "A" 0 "")),
    .plan "n1" [("m1", "n1")] ["n1"] ["n1"] [], .recover .empty calm]

/-- The next plan, with `n2` as a member again, is clean: `n2` publishes a partition, so
it is not new, and `offset0` is not set back.  The request stays in partition `0`. -/
theorem servable_request_left :
    (run (step true) .init comeBackRun).map (fun s =>
      let r := s.group.planned "n1" [("m1", "n1"), ("m2", "n2")] ["n1", "n2"] ["n1", "n2"] s.size
        (s.offsets [])
      (r.1.toOption.map (fun pl => (pl "m1", pl "m2")), r.2.recovery.isNone)) =
        some (some ([1], [2]), true) ∧
    (run (step true) .init comeBackRun).map (fun s =>
      ((s.log.messages 0), (s.log.messages 1), (s.log.messages 2))) =
        some ([.request (actorCall "k" "A" 0 "")], [], []) ∧
    (run (step true) .init comeBackRun).map (fun s =>
      ((actorCall "k" "A" 0 "").target.service?, (s.group.procs "n2").self.services)) =
        some (some "a", ["a"]) := by
  decide +kernel

end Topic

end Kar.Rpc
