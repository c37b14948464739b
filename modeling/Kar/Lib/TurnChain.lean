import Mathlib.Logic.Function.Basic
import Mathlib.Logic.Relation

/-!
# Chains of one-slot channels

A turn is handed from thread to thread along a chain of channels that hold at most one
token each.  A thread that asks for the turn appends a channel: it waits for the token on
the channel that was the last one so far, and sends it on the new one when it is done.  So
the order in which the threads get the turn is the order in which they asked for it, and
nothing but the channels records it.

A thread may also end without sending.  It parks the turn under a key, and the thread that
later presents the key goes on in its place.

The channels of a chain are numbered, so `before` and `after` of a thread are consecutive
numbers and the last channel of a chain has the number `next`.  `Step` lists the
operations, and `Inv` is their invariant: each chain has a number `front` such that its turn
is at that channel, and in one place only.  The consequences are `Inv.unique` (two places
of one turn are equal) and `Inv.not_waits_of_last` (nobody waits behind a thread that sends
on the last channel).
-/

namespace Kar.Lib

open Function

/-- The channel number `num` of the chain `owner`. -/
structure Link (ι : Type) where
  owner : ι
  num : Nat
  deriving DecidableEq, Repr

/-- What a thread does with the turn. -/
inductive TurnPhase
  /-- The thread has not asked for it. -/
  | absent
  | waits
  | holds
  | gone
  deriving DecidableEq, Repr

/-- A place where the turn may be. -/
inductive Position (τ κ : Type)
  | buffered
  | held (t : τ)
  | parked (k : κ)
  deriving DecidableEq, Repr

@[ext] structure TurnChain (ι τ κ : Type) where
  /-- The chain is in use. -/
  opened : ι → Bool
  /-- The number of the last channel. -/
  next : ι → Nat
  full : Link ι → Bool
  closed : Link ι → Bool
  phase : τ → TurnPhase
  before : τ → Option (Link ι)
  after : τ → Option (Link ι)
  parked : κ → Option (Link ι)

namespace TurnChain

/-- The turn of the channel `l` is at the position `p`: it is sent on `l`, held by a thread
that will send it on `l`, or parked for such a thread. -/
def At (c : TurnChain ι τ κ) (l : Link ι) : Position τ κ → Prop
  | .buffered => c.full l = true
  | .held t => c.phase t = .holds ∧ c.after t = some l
  | .parked k => c.parked k = some l

/-- The thread has not appeared yet. -/
structure Fresh (c : TurnChain ι τ κ) (t : τ) : Prop where
  phase : c.phase t = .absent
  before : c.before t = none
  after : c.after t = none

/-- The chain has not appeared yet. -/
structure Unused (c : TurnChain ι τ κ) (i : ι) : Prop where
  opened : c.opened i = false
  before : ∀ t l, c.before t = some l → l.owner ≠ i
  turn : ∀ l p, c.At l p → l.owner ≠ i
  closed : ∀ l, c.closed l = true → l.owner ≠ i

section Operations

variable [DecidableEq ι] [DecidableEq τ] [DecidableEq κ] (c : TurnChain ι τ κ)

/-- A new chain, whose first channel has the turn. -/
def create (i : ι) : TurnChain ι τ κ := { c with
  opened := Function.update c.opened i true
  next := Function.update c.next i 0
  full := Function.update c.full ⟨i, 0⟩ true }

/-- The thread `t` asks for the turn of chain `i`. -/
def enqueue (i : ι) (t : τ) : TurnChain ι τ κ := { c with
  next := Function.update c.next i (c.next i + 1)
  before := Function.update c.before t (some ⟨i, c.next i⟩)
  after := Function.update c.after t (some ⟨i, c.next i + 1⟩)
  phase := Function.update c.phase t .waits }

/-- The thread `t` receives the turn from the channel `l`. -/
def take (t : τ) (l : Link ι) : TurnChain ι τ κ := { c with
  full := Function.update c.full l false
  phase := Function.update c.phase t .holds }

/-- The thread `t` sends the turn on the channel `l`. -/
def pass (t : τ) (l : Link ι) : TurnChain ι τ κ := { c with
  full := Function.update c.full l true
  phase := Function.update c.phase t .gone }

/-- The thread `t`, which should send on `l`, leaves that to the thread that presents `k`. -/
def park (t : τ) (l : Link ι) (k : κ) : TurnChain ι τ κ := { c with
  parked := Function.update c.parked k (some l)
  phase := Function.update c.phase t .gone }

/-- The thread `t` presents `k`, and will send on `l`. -/
def resume (t : τ) (l : Link ι) (k : κ) : TurnChain ι τ κ := { c with
  parked := Function.update c.parked k none
  after := Function.update c.after t (some l)
  phase := Function.update c.phase t .holds }

/-- The chain `i` is closed. -/
def retire (i : ι) : TurnChain ι τ κ := { c with opened := Function.update c.opened i false }

/-- The thread `t` closes the channel `l` instead of sending the turn. -/
def drop (t : τ) (l : Link ι) : TurnChain ι τ κ := { c with
  closed := Function.update c.closed l true
  phase := Function.update c.phase t .gone }

/-- One operation.  Under `D` a turn is parked only under a key that is not in use. -/
inductive Step (D : Prop) : TurnChain ι τ κ → TurnChain ι τ κ → Prop
  | create {c : TurnChain ι τ κ} {i : ι} (hi : c.Unused i) : Step D c (c.create i)
  | enqueue {c : TurnChain ι τ κ} {i : ι} {t : τ} (hi : c.opened i = true) (ht : c.Fresh t) :
      Step D c (c.enqueue i t)
  | take {c : TurnChain ι τ κ} {t : τ} {l : Link ι} (ht : c.phase t = .waits)
      (hb : c.before t = some l) (hl : c.full l = true) : Step D c (c.take t l)
  | pass {c : TurnChain ι τ κ} {t : τ} {l : Link ι} (ht : c.At l (.held t)) :
      Step D c (c.pass t l)
  | park {c : TurnChain ι τ κ} {t : τ} {l : Link ι} {k : κ} (ht : c.At l (.held t))
      (hk : D → c.parked k = none) : Step D c (c.park t l k)
  | resume {c : TurnChain ι τ κ} {t : τ} {l : Link ι} {k : κ} (hk : c.parked k = some l)
      (ht : c.Fresh t) : Step D c (c.resume t l k)
  /-- Nobody has asked for the turn after its holder. -/
  | retire {c : TurnChain ι τ κ} {t : τ} {l : Link ι} (ht : c.At l (.held t))
      (hl : l.num = c.next l.owner) : Step D c (c.retire l.owner)
  | drop {c : TurnChain ι τ κ} {t : τ} {l : Link ι} (ht : c.At l (.held t))
      (hl : c.opened l.owner = false) : Step D c (c.drop t l)

end Operations

/-- The turn of chain `i` is at the channel `front i`, in the position `holder i`. -/
structure Inv (D : Prop) (c : TurnChain ι τ κ) (front : ι → Nat)
    (holder : ι → Option (Position τ κ)) : Prop where
  turn : ∀ l p, c.At l p → holder l.owner = some p ∧ l.num = front l.owner
  exact : D → ∀ i p, holder i = some p → c.At ⟨i, front i⟩ p
  opened : ∀ i, c.opened i = true → holder i ≠ none
  closed : ∀ l, c.closed l = true → holder l.owner = none
  front_le : ∀ i, front i ≤ c.next i
  waits : ∀ t, c.phase t = .waits → ∃ l, c.before t = some l ∧
    c.after t = some ⟨l.owner, l.num + 1⟩ ∧ front l.owner ≤ l.num ∧ l.num < c.next l.owner ∧
    c.opened l.owner = true
  past : ∀ t l, c.before t = some l → c.phase t ≠ .waits → l.num < front l.owner
  distinct : ∀ t u l, c.before t = some l → c.before u = some l → t = u
  holds : ∀ t l, c.before t = some l → c.phase t = .holds → c.after t = some ⟨l.owner, l.num + 1⟩

namespace Inv

variable {c c' : TurnChain ι τ κ}

/-- No chain is in use, and no thread has asked for a turn. -/
theorem of_unused (hopened : ∀ i, c.opened i = false) (hturn : ∀ l p, ¬c.At l p)
    (hfresh : ∀ t, c.Fresh t) : c.Inv D (fun _ => 0) (fun _ => none) where
  closed := fun _ _ => rfl
  turn := fun l p hp => absurd hp (hturn l p)
  exact := by simp
  opened := fun i hi => by simp [hopened i] at hi
  front_le := fun _ => Nat.zero_le _
  waits := fun t ht => by simp [(hfresh t).phase] at ht
  past := fun t l hl => by simp [(hfresh t).before] at hl
  distinct := fun t _ l hl => by simp [(hfresh t).before] at hl
  holds := fun t l hl => by simp [(hfresh t).before] at hl

/-- The turn of a chain is in one place. -/
theorem unique (h : c.Inv D front holder) (hp : c.At l p)
    (hp' : c.At l' p') (howner : l.owner = l'.owner) : l = l' ∧ p = p' := by
  obtain ⟨hholder, hnum⟩ := h.turn l p hp
  obtain ⟨hholder', hnum'⟩ := h.turn l' p' hp'
  rw [howner] at hholder hnum
  refine ⟨?_, Option.some.inj (hholder.symm.trans hholder')⟩
  cases l
  cases l'
  simp_all

/-- The channel on which the holder of the turn sends is empty. -/
theorem not_full_of_held (h : c.Inv D front holder) (ht : c.At l (.held t)) : c.full l = false := by
  cases hfull : c.full l with
  | false => rfl
  | true =>
    have := (h.unique (p := .buffered) hfull ht rfl).2
    simp at this

/-- The channels of a chain that has a turn are not closed. -/
theorem not_closed_of_at (h : c.Inv D front holder)
    (hp : c.At l p) (howner : l'.owner = l.owner) : c.closed l' = false := by
  cases hclosed : c.closed l' with
  | false => rfl
  | true =>
    have hnone := h.closed l' hclosed
    simp [howner, (h.turn l p hp).1] at hnone

/-- A thread that has a number asked for the turn before the last channel was made. -/
theorem num_lt_next (h : c.Inv D front holder) (ht : c.before t = some l) :
    l.num < c.next l.owner := by
  by_cases hwaits : c.phase t = .waits
  · obtain ⟨l', hl', -, -, hlt, -⟩ := h.waits t hwaits
    rw [← Option.some.inj (hl'.symm.trans ht)]
    exact hlt
  · exact Nat.lt_of_lt_of_le (h.past t l ht hwaits) (h.front_le l.owner)

/-- Nobody waits behind a thread that holds the turn and sends on the last channel. -/
theorem not_waits_of_last (h : c.Inv D front holder)
    (ht : c.At l (.held t)) (hl : l.num = c.next l.owner) (hu : c.before u = some l')
    (howner : l'.owner = l.owner) : c.phase u ≠ .waits := by
  intro hwaits
  obtain ⟨l'', hl'', -, hle, hlt, -⟩ := h.waits u hwaits
  rw [Option.some.inj (hl''.symm.trans hu), howner] at hle hlt
  have hfront := (h.turn l _ ht).2
  omega

/-! ### The operations keep the invariant -/

variable [DecidableEq ι]

/-- The turn of one chain moves from the position `p` at `l` to the position `p'` at `l'`. -/
structure Moved (c c' : TurnChain ι τ κ) (l l' : Link ι) (p p' : Position τ κ) : Prop where
  source : c.At l p
  target : c'.At l' p'
  owner : l'.owner = l.owner
  other : ∀ m q, c'.At m q → m = l' ∧ q = p' ∨ c.At m q ∧ ¬(m = l ∧ q = p)

theorem turn_of_moved (h : c.Inv D front holder)
    (hm : Moved c c' l l' p p') (m : Link ι) (q : Position τ κ) (hq : c'.At m q) :
    update holder l.owner (some p') m.owner = some q ∧
      m.num = update front l.owner l'.num m.owner := by
  rcases hm.other m q hq with ⟨rfl, rfl⟩ | ⟨hold, hne⟩
  · rw [hm.owner, update_self, update_self]
    exact ⟨rfl, rfl⟩
  · have howner : m.owner ≠ l.owner := fun heq => hne (h.unique hold hm.source heq)
    rw [update_of_ne howner, update_of_ne howner]
    exact h.turn m q hold

theorem exact_of_moved (h : c.Inv D front holder)
    (hm : Moved c c' l l' p p') (hkept : D → ∀ m q, c.At m q → m.owner ≠ l.owner → c'.At m q) (hD : D)
    (i : ι) (q : Position τ κ) (hq : update holder l.owner (some p') i = some q) :
    c'.At ⟨i, update front l.owner l'.num i⟩ q := by
  by_cases hi : i = l.owner
  · subst hi
    rw [update_self] at hq ⊢
    cases hq
    have htarget := hm.target
    rw [show l' = ⟨l.owner, l'.num⟩ by rw [← hm.owner]] at htarget
    exact htarget
  · rw [update_of_ne hi] at hq ⊢
    exact hkept hD _ q (h.exact hD i q hq) hi

theorem opened_of_moved (h : c.Inv D front holder)
    (hopened : ∀ j, c'.opened j = true → c.opened j = true) (j : ι) (hj : c'.opened j = true) :
    update holder i (some p) j ≠ none := by
  by_cases hi : j = i
  · rw [hi, update_self]
    simp
  · rw [update_of_ne hi]
    exact h.opened j (hopened j hj)

/-- The chains with a closed channel are not those whose turn moves. -/
theorem closed_of_moved (h : c.Inv D front holder) (hp : c.At l p) (hl' : c.closed l' = true) :
    update holder l.owner (some p') l'.owner = none := by
  have howner : l'.owner ≠ l.owner := fun heq => by simp [h.not_closed_of_at hp heq] at hl'
  rw [update_of_ne howner]
  exact h.closed l' hl'

variable [DecidableEq τ] [DecidableEq κ]

omit [DecidableEq τ] [DecidableEq κ] in
theorem create (h : c.Inv D front holder) (hi : c.Unused i) :
    (c.create i).Inv D (update front i 0) (update holder i (some .buffered)) where
  turn := by
    intro l p hp
    have hcases : l = ⟨i, 0⟩ ∧ p = .buffered ∨ c.At l p := by
      cases p with
      | buffered =>
        by_cases hl : l = ⟨i, 0⟩
        · exact .inl ⟨hl, rfl⟩
        · exact .inr (by simpa [At, TurnChain.create, hl] using hp)
      | held => exact .inr hp
      | parked => exact .inr hp
    rcases hcases with ⟨rfl, rfl⟩ | hold
    · simp
    · have hne := hi.turn l p hold
      rw [update_of_ne hne, update_of_ne hne]
      exact h.turn l p hold
  exact := by
    intro hD j p hj
    by_cases hji : j = i
    · subst hji
      rw [update_self] at hj ⊢
      cases hj
      simp [At, TurnChain.create]
    rw [update_of_ne hji] at hj ⊢
    have hold := h.exact hD j p hj
    cases p with
    | buffered =>
      have hne : (⟨j, front j⟩ : Link ι) ≠ ⟨i, 0⟩ := fun heq => hji (congrArg Link.owner heq)
      simpa [At, TurnChain.create, hne] using hold
    | held => exact hold
    | parked => exact hold
  opened := by
    intro j hj
    by_cases hji : j = i
    · simp [hji]
    · simp only [TurnChain.create, update_of_ne hji] at hj ⊢
      exact h.opened j hj
  closed := by
    intro l hl
    rw [update_of_ne (hi.closed l hl)]
    exact h.closed l hl
  front_le := by
    intro j
    by_cases hji : j = i
    · simp [hji]
    · simp only [TurnChain.create, update_of_ne hji]
      exact h.front_le j
  waits := by
    intro t ht
    obtain ⟨l, hl, hafter, hle, hlt, hopen⟩ := h.waits t ht
    have hne := hi.before t l hl
    refine ⟨l, hl, hafter, ?_⟩
    simp only [TurnChain.create, update_of_ne hne]
    exact ⟨hle, hlt, hopen⟩
  past := by
    intro t l hl ht
    rw [update_of_ne (hi.before t l hl)]
    exact h.past t l hl ht
  distinct := h.distinct
  holds := h.holds

omit [DecidableEq κ] in
theorem enqueue (h : c.Inv D front holder) (hi : c.opened i = true)
    (ht : c.Fresh t) : (c.enqueue i t).Inv D front holder := by
  -- No turn moves: the new thread does not hold one.
  have hat : ∀ l p, (c.enqueue i t).At l p ↔ c.At l p := by
    intro l p
    cases p with
    | buffered => exact Iff.rfl
    | held u =>
      by_cases hu : u = t
      · simp [At, TurnChain.enqueue, hu, ht.phase]
      · simp [At, TurnChain.enqueue, hu]
    | parked => exact Iff.rfl
  have hnext : ∀ j, c.next j ≤ (c.enqueue i t).next j := by
    intro j
    by_cases hj : j = i
    · simp [TurnChain.enqueue, hj]
    · simp [TurnChain.enqueue, hj]
  have hbefore : ∀ u l, (c.enqueue i t).before u = some l →
      u = t ∧ l = ⟨i, c.next i⟩ ∨ u ≠ t ∧ c.before u = some l := by
    intro u l hl
    by_cases hu : u = t
    · simp only [TurnChain.enqueue, hu, update_self, Option.some.injEq] at hl
      exact .inl ⟨hu, hl.symm⟩
    · simp only [TurnChain.enqueue, update_of_ne hu] at hl
      exact .inr ⟨hu, hl⟩
  refine ⟨fun l p hp => h.turn l p ((hat l p).mp hp), fun hD j p hj => (hat _ p).mpr (h.exact hD j p
    hj), h.opened, h.closed, fun j => Nat.le_trans (h.front_le j) (hnext j), fun u hu => ?_, fun u l
    hl hu => ?_, fun u v l hu hv => ?_, fun u l hl hu => ?_⟩
  · by_cases hut : u = t
    · refine ⟨⟨i, c.next i⟩, by simp [TurnChain.enqueue, hut], by simp [TurnChain.enqueue, hut],
        h.front_le i, by simp [TurnChain.enqueue], hi⟩
    · simp only [TurnChain.enqueue, update_of_ne hut] at hu ⊢
      obtain ⟨l, hl, hafter, hle, hlt, hopen⟩ := h.waits u hu
      exact ⟨l, hl, hafter, hle, Nat.lt_of_lt_of_le hlt (hnext l.owner), hopen⟩
  · rcases hbefore u l hl with ⟨rfl, -⟩ | ⟨hut, hold⟩
    · simp [TurnChain.enqueue] at hu
    · simp only [TurnChain.enqueue, update_of_ne hut] at hu
      exact h.past u l hold hu
  · -- The number of the new thread is the one of the last channel, and nobody has it.
    rcases hbefore u l hu with ⟨rfl, rfl⟩ | ⟨hut, hold⟩ <;>
      rcases hbefore v _ hv with ⟨rfl, hl⟩ | ⟨hvt, hold'⟩
    · rfl
    · exact absurd (h.num_lt_next hold') (Nat.lt_irrefl _)
    · rw [hl] at hold
      exact absurd (h.num_lt_next hold) (Nat.lt_irrefl _)
    · exact h.distinct u v l hold hold'
  · rcases hbefore u l hl with ⟨rfl, -⟩ | ⟨hut, hold⟩
    · simp [TurnChain.enqueue] at hu
    · simp only [TurnChain.enqueue, update_of_ne hut] at hu ⊢
      exact h.holds u l hold hu

omit [DecidableEq κ] in
theorem take (h : c.Inv D front holder) (ht : c.phase t = .waits)
    (hb : c.before t = some l) (hl : c.full l = true) :
    (c.take t l).Inv D (update front l.owner (l.num + 1))
      (update holder l.owner (some (.held t))) := by
  obtain ⟨l', hl', hafter, -, hlt, -⟩ := h.waits t ht
  rw [Option.some.inj (hl'.symm.trans hb)] at hafter hlt
  have hfront := (h.turn l .buffered hl).2
  have hphase : ∀ u, u ≠ t → (c.take t l).phase u = c.phase u := fun u hu => by
    simp [TurnChain.take, hu]
  have hself : (c.take t l).phase t = .holds := by simp [TurnChain.take]
  have hm : Moved c (c.take t l) l ⟨l.owner, l.num + 1⟩ .buffered (.held t) := by
    refine ⟨hl, ⟨hself, hafter⟩, rfl, fun m q hq => ?_⟩
    cases q with
    | buffered =>
      by_cases hml : m = l
      · simp [At, TurnChain.take, hml] at hq
      · exact .inr ⟨by simpa [At, TurnChain.take, hml] using hq, by simp [hml]⟩
    | held u =>
      by_cases hu : u = t
      · subst hu
        exact .inl ⟨(Option.some.inj (hafter.symm.trans hq.2)).symm, rfl⟩
      · exact .inr ⟨⟨(hphase u hu).symm.trans hq.1, hq.2⟩, by simp⟩
    | parked => exact .inr ⟨hq, by simp⟩
  refine ⟨h.turn_of_moved hm, h.exact_of_moved hm ?_, h.opened_of_moved fun _ hj => hj,
    fun _ => h.closed_of_moved hm.source, fun j => ?_, fun u hu => ?_, fun u m hum hu => ?_, h.distinct, fun u m hum hu => ?_⟩
  · intro _ m q hq howner
    cases q with
    | buffered =>
      have hml : m ≠ l := fun heq => howner (congrArg Link.owner heq)
      simpa [At, TurnChain.take, hml] using hq
    | held u =>
      have hu : u ≠ t := fun heq => by simp [At, heq, ht] at hq
      exact ⟨(hphase u hu).trans hq.1, hq.2⟩
    | parked => exact hq
  · by_cases hj : j = l.owner
    · rw [hj, update_self]
      exact hlt
    · rw [update_of_ne hj]
      exact h.front_le j
  · -- The others wait at higher numbers.
    have hut : u ≠ t := fun heq => by simp [heq, hself] at hu
    obtain ⟨m, hm, hmafter, hle, hmlt, hopen⟩ := h.waits u ((hphase u hut).symm.trans hu)
    refine ⟨m, hm, hmafter, ?_, hmlt, hopen⟩
    by_cases howner : m.owner = l.owner
    · rw [howner, update_self]
      rw [howner, ← hfront] at hle
      have hne : m.num ≠ l.num := fun hnum => hut (h.distinct u t l (by
        rw [hm, show m = l by cases m; cases l; simp_all]) hb)
      omega
    · rw [update_of_ne howner]
      exact hle
  · by_cases hut : u = t
    · subst hut
      rw [← Option.some.inj (hb.symm.trans hum), update_self]
      exact Nat.lt_succ_self _
    have hlt := h.past u m hum ((hphase u hut) ▸ hu)
    by_cases howner : m.owner = l.owner
    · rw [howner, update_self]
      rw [howner, ← hfront] at hlt
      omega
    · rw [update_of_ne howner]
      exact hlt
  · by_cases hut : u = t
    · subst hut
      rw [← Option.some.inj (hb.symm.trans hum)]
      exact hafter
    · exact h.holds u m hum ((hphase u hut).symm.trans hu)

/-- What an operation leaves alone that neither asks for a turn nor receives one. -/
structure Frame (c c' : TurnChain ι τ κ) : Prop where
  before : c'.before = c.before
  next : c'.next = c.next
  waits : ∀ t, c'.phase t = .waits ↔ c.phase t = .waits
  after : ∀ t, c.before t ≠ none → c'.after t = c.after t
  holds : ∀ t, c.before t ≠ none → c'.phase t = .holds → c.phase t = .holds
  opened : ∀ t l, c.phase t = .waits → c.before t = some l → c'.opened l.owner = true

omit [DecidableEq ι] [DecidableEq τ] [DecidableEq κ] in
theorem frame (h : c.Inv D front holder) (hf : Frame c c')
    (hturn : ∀ l p, c'.At l p → holder' l.owner = some p ∧ l.num = front l.owner)
    (hexact : D → ∀ i p, holder' i = some p → c'.At ⟨i, front i⟩ p)
    (hopened : ∀ i, c'.opened i = true → holder' i ≠ none)
    (hclosed : ∀ l, c'.closed l = true → holder' l.owner = none) : c'.Inv D front holder' where
  turn := hturn
  exact := hexact
  opened := hopened
  closed := hclosed
  front_le := by
    rw [hf.next]
    exact h.front_le
  waits := by
    intro t ht
    have hwaits := (hf.waits t).mp ht
    obtain ⟨l, hl, hafter, hle, hlt, -⟩ := h.waits t hwaits
    refine ⟨l, by rw [hf.before, hl], ?_, hle, by rw [hf.next]; exact hlt, hf.opened t l hwaits hl⟩
    rw [hf.after t (by simp [hl]), hafter]
  past := by
    intro t l hl ht
    rw [hf.before] at hl
    exact h.past t l hl fun hwaits => ht ((hf.waits t).mpr hwaits)
  distinct := by
    rw [hf.before]
    exact h.distinct
  holds := by
    intro t l hl ht
    rw [hf.before] at hl
    have hne : c.before t ≠ none := by simp [hl]
    rw [hf.after t hne]
    exact h.holds t l hl (hf.holds t hne ht)

omit [DecidableEq τ] [DecidableEq κ] in
/-- The turn moves to another position at the same channel. -/
theorem frame_moved (h : c.Inv D front holder) (hf : Frame c c')
    (hm : Moved c c' l l p p') (hopened : c'.opened = c.opened) (hclosed : c'.closed = c.closed)
    (hkept : D → ∀ m q, c.At m q → m.owner ≠ l.owner → c'.At m q) :
    c'.Inv D front (update holder l.owner (some p')) := by
  have hfront : update front l.owner l.num = front := by
    rw [(h.turn l p hm.source).2, update_eq_self]
  have hturn := h.turn_of_moved hm
  have hexact := h.exact_of_moved hm hkept
  rw [hfront] at hturn hexact
  refine h.frame hf hturn hexact (h.opened_of_moved fun _ hj => hopened ▸ hj) fun m hm' => ?_
  rw [hclosed] at hm'
  exact h.closed_of_moved hm.source hm'

omit [DecidableEq ι] [DecidableEq κ] in
/-- The holder of a turn ends. -/
theorem frame_gone (h : c.Inv D front holder) (ht : c.phase t = .holds)
    (hbefore : c'.before = c.before) (hnext : c'.next = c.next) (hafter : c'.after = c.after)
    (hopened : c'.opened = c.opened) (hphase : c'.phase = update c.phase t .gone) :
    Frame c c' where
  before := hbefore
  next := hnext
  waits := by
    intro u
    rw [hphase]
    by_cases hu : u = t
    · simp [hu, ht]
    · rw [update_of_ne hu]
  after := fun u _ => by rw [hafter]
  holds := by
    intro u _ hu
    rw [hphase] at hu
    by_cases hut : u = t
    · simp [hut] at hu
    · rw [update_of_ne hut] at hu
      exact hu
  opened := by
    intro u l hu hl
    obtain ⟨l', hl', -, -, -, hopen⟩ := h.waits u hu
    rw [hopened, ← Option.some.inj (hl'.symm.trans hl)]
    exact hopen

omit [DecidableEq ι] [DecidableEq κ] in
/-- What the other threads hold when the thread `t` ends. -/
theorem at_held_of_gone (c c' : TurnChain ι τ κ) (hafter : c'.after = c.after)
    (hphase : c'.phase = update c.phase t .gone) (m : Link ι) (u : τ) :
    c'.At m (.held u) ↔ c.At m (.held u) ∧ u ≠ t := by
  by_cases hu : u = t
  · simp [At, hphase, hu]
  · simp [At, hphase, hafter, hu]

omit [DecidableEq κ] in
theorem pass (h : c.Inv D front holder) (ht : c.At l (.held t)) :
    (c.pass t l).Inv D front (update holder l.owner (some .buffered)) := by
  have hframe : Frame c (c.pass t l) := h.frame_gone ht.1 rfl rfl rfl rfl rfl
  have hheld : ∀ m u, (c.pass t l).At m (.held u) ↔ c.At m (.held u) ∧ u ≠ t :=
    at_held_of_gone c _ rfl rfl
  have htarget : (c.pass t l).At l .buffered := by simp [At, TurnChain.pass]
  refine h.frame_moved hframe ⟨ht, htarget, rfl, fun m q hq => ?_⟩ rfl rfl ?_
  · cases q with
    | buffered =>
      by_cases hm : m = l
      · exact .inl ⟨hm, rfl⟩
      · exact .inr ⟨by simpa [At, TurnChain.pass, hm] using hq, by simp⟩
    | held u =>
      obtain ⟨hold, hu⟩ := (hheld m u).mp hq
      exact .inr ⟨hold, by simp [hu]⟩
    | parked => exact .inr ⟨hq, by simp⟩
  · intro _ m q hq howner
    cases q with
    | buffered =>
      have hm : m ≠ l := fun heq => howner (congrArg Link.owner heq)
      simpa [At, TurnChain.pass, hm] using hq
    | held u =>
      refine (hheld m u).mpr ⟨hq, fun hu => howner ?_⟩
      rw [Option.some.inj (hq.2.symm.trans (hu ▸ ht.2))]
    | parked => exact hq

theorem park (h : c.Inv D front holder) (ht : c.At l (.held t)) (hk : D → c.parked k = none) :
    (c.park t l k).Inv D front (update holder l.owner (some (.parked k))) := by
  have hframe : Frame c (c.park t l k) := h.frame_gone ht.1 rfl rfl rfl rfl rfl
  have hheld : ∀ m u, (c.park t l k).At m (.held u) ↔ c.At m (.held u) ∧ u ≠ t :=
    at_held_of_gone c _ rfl rfl
  have htarget : (c.park t l k).At l (.parked k) := by simp [At, TurnChain.park]
  refine h.frame_moved hframe ⟨ht, htarget, rfl, fun m q hq => ?_⟩ rfl rfl ?_
  · cases q with
    | buffered => exact .inr ⟨hq, by simp⟩
    | held u =>
      obtain ⟨hold, hu⟩ := (hheld m u).mp hq
      exact .inr ⟨hold, by simp [hu]⟩
    | parked k' =>
      by_cases hkk : k' = k
      · subst hkk
        simp only [At, TurnChain.park, update_self, Option.some.injEq] at hq
        exact .inl ⟨hq.symm, rfl⟩
      · exact .inr ⟨by simpa [At, TurnChain.park, hkk] using hq, by simp⟩
  · intro hD m q hq howner
    cases q with
    | buffered => exact hq
    | held u =>
      refine (hheld m u).mpr ⟨hq, fun hu => howner ?_⟩
      rw [Option.some.inj (hq.2.symm.trans (hu ▸ ht.2))]
    | parked k' =>
      have hkk : k' ≠ k := fun heq => by simp [At, heq, hk hD] at hq
      simpa [At, TurnChain.park, hkk] using hq

theorem resume (h : c.Inv D front holder) (hk : c.parked k = some l) (ht : c.Fresh t) :
    (c.resume t l k).Inv D front (update holder l.owner (some (.held t))) := by
  have hframe : Frame c (c.resume t l k) := by
    refine ⟨rfl, rfl, fun u => ?_, fun u hu => ?_, fun u hu hh => ?_, fun u m hu hm => ?_⟩
    · by_cases hut : u = t
      · simp [TurnChain.resume, hut, ht.phase]
      · simp [TurnChain.resume, hut]
    · have hut : u ≠ t := fun heq => hu (heq ▸ ht.before)
      simp [TurnChain.resume, hut]
    · have hut : u ≠ t := fun heq => hu (heq ▸ ht.before)
      simpa [TurnChain.resume, hut] using hh
    · obtain ⟨m', hm', -, -, -, hopen⟩ := h.waits u hu
      rw [← Option.some.inj (hm'.symm.trans hm)]
      exact hopen
  have hheld : ∀ m u, u ≠ t → ((c.resume t l k).At m (.held u) ↔ c.At m (.held u)) := by
    intro m u hu
    simp [At, TurnChain.resume, hu]
  have hsource : c.At l (.parked k) := hk
  have htarget : (c.resume t l k).At l (.held t) := by simp [At, TurnChain.resume]
  refine h.frame_moved hframe ⟨hsource, htarget, rfl, fun m q hq => ?_⟩ rfl rfl ?_
  · cases q with
    | buffered => exact .inr ⟨hq, by simp⟩
    | held u =>
      by_cases hu : u = t
      · subst hu
        simp only [At, TurnChain.resume, update_self, Option.some.injEq, true_and] at hq
        exact .inl ⟨hq.symm, rfl⟩
      · exact .inr ⟨(hheld m u hu).mp hq, by simp⟩
    | parked k' =>
      by_cases hkk : k' = k
      · simp [At, TurnChain.resume, hkk] at hq
      · exact .inr ⟨by simpa [At, TurnChain.resume, hkk] using hq, by simp [hkk]⟩
  · intro _ m q hq howner
    cases q with
    | buffered => exact hq
    | held u =>
      have hu : u ≠ t := fun heq => by simp [At, heq, ht.phase] at hq
      exact (hheld m u hu).mpr hq
    | parked k' =>
      have hkk : k' ≠ k := fun heq => howner (by
        rw [Option.some.inj (Eq.trans (Eq.symm hq) (heq ▸ hk))])
      simpa [At, TurnChain.resume, hkk] using hq

omit [DecidableEq τ] [DecidableEq κ] in
theorem retire (h : c.Inv D front holder) (ht : c.At l (.held t))
    (hl : l.num = c.next l.owner) : (c.retire l.owner).Inv D front holder := by
  have hframe : Frame c (c.retire l.owner) := by
    refine ⟨rfl, rfl, fun _ => Iff.rfl, fun _ _ => rfl, fun _ _ hh => hh, fun u m hu hm => ?_⟩
    have howner : m.owner ≠ l.owner := fun heq => h.not_waits_of_last ht hl hm heq hu
    obtain ⟨m', hm', -, -, -, hopen⟩ := h.waits u hu
    rw [Option.some.inj (hm'.symm.trans hm)] at hopen
    simpa [TurnChain.retire, howner] using hopen
  refine h.frame hframe h.turn h.exact (fun i hi => h.opened i ?_) h.closed
  by_cases hil : i = l.owner
  · simp [TurnChain.retire, hil] at hi
  · simpa [TurnChain.retire, hil] using hi

omit [DecidableEq κ] in
theorem drop (h : c.Inv D front holder) (ht : c.At l (.held t)) (hl : c.opened l.owner = false) :
    (c.drop t l).Inv D front (update holder l.owner none) := by
  have hat : ∀ m q, (c.drop t l).At m q ↔ c.At m q ∧ q ≠ .held t := by
    intro m q
    cases q with
    | buffered => simp [At, TurnChain.drop]
    | held u => simpa using at_held_of_gone c (c.drop t l) rfl rfl m u
    | parked => simp [At, TurnChain.drop]
  have hframe : Frame c (c.drop t l) := h.frame_gone ht.1 rfl rfl rfl rfl rfl
  refine h.frame hframe (fun m q hq => ?_) (fun hD i q hq => ?_) (fun i hi => ?_) fun m hm => ?_
  · obtain ⟨hold, hne⟩ := (hat m q).mp hq
    have howner : m.owner ≠ l.owner := fun heq => hne (h.unique hold ht heq).2
    rw [update_of_ne howner]
    exact h.turn m q hold
  · by_cases hi : i = l.owner
    · simp [hi] at hq
    rw [update_of_ne hi] at hq
    have hold := h.exact hD i q hq
    refine (hat _ q).mpr ⟨hold, fun heq => hi ?_⟩
    rw [heq] at hold
    exact congrArg Link.owner (Option.some.inj (hold.2.symm.trans ht.2))
  · have hne : i ≠ l.owner := fun heq => by
      simp only [TurnChain.drop, heq, hl] at hi
      simp at hi
    rw [update_of_ne hne]
    exact h.opened i hi
  · by_cases howner : m.owner = l.owner
    · rw [howner, update_self]
    · have hml : m ≠ l := fun heq => howner (congrArg Link.owner heq)
      rw [update_of_ne howner]
      exact h.closed m (by simpa [TurnChain.drop, hml] using hm)

/-- Every operation keeps the invariant. -/
theorem step (h : c.Inv D front holder) (hs : Step D c c') :
    ∃ front' holder', c'.Inv D front' holder' := by
  cases hs with
  | create hi => exact ⟨_, _, h.create hi⟩
  | enqueue hi ht => exact ⟨_, _, h.enqueue hi ht⟩
  | take ht hb hl => exact ⟨_, _, h.take ht hb hl⟩
  | pass ht => exact ⟨_, _, h.pass ht⟩
  | park ht hk => exact ⟨_, _, h.park ht hk⟩
  | resume hk ht => exact ⟨_, _, h.resume hk ht⟩
  | retire ht hl => exact ⟨_, _, h.retire ht hl⟩
  | drop ht hl => exact ⟨_, _, h.drop ht hl⟩

theorem steps (h : c.Inv D front holder) (hs : Relation.ReflTransGen (Step D) c c') :
    ∃ front' holder', c'.Inv D front' holder' := by
  induction hs with
  | refl => exact ⟨front, holder, h⟩
  | tail _ hstep ih =>
    obtain ⟨front', holder', h'⟩ := ih
    exact h'.step hstep

end Inv

end TurnChain

end Kar.Lib
