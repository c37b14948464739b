import Kar.Lib.GoMap
import Kar.Lib.Run

/-!
# The two indexes of the breakpoints

`setBreakpoint`, `unsetBreakpoint` and `checkBreakpoint` of `core/internal/runtime/commands.go`.  The map
`breakpoints` has the breakpoints by id, and `breakpointsByAttrs` has them by the attributes of the
requests that hit them.  A breakpoint on a flow is stored under the flow alone.

Two commands tear the maps apart (`breakpoints_consistent_iff`).  An id that is set again with other
attributes leaves its old entry in `breakpointsByAttrs`.  And `unsetBreakpoint` also deletes the key that
has nothing but the flow id: for a breakpoint without a flow, and for an unknown id, this is the key of
the breakpoint that has no attributes at all.
-/

namespace Kar.Debugger

open Kar.Lib

/-- The struct `breakpointAttrs_t`. -/
structure BreakpointAttrs where
  actorId : String := ""
  actorType : String := ""
  path : String := ""
  isRequest : String := ""
  flowId : String := ""
  deriving DecidableEq

/-- The struct `breakpoint_t`. -/
structure Breakpoint where
  id : String := ""
  breakpointType : String := ""
  attrs : BreakpointAttrs := {}
  conds : String := ""
  respConds : String := ""
  deleteOnHit : Bool := false
  deriving DecidableEq

structure Breakpoints where
  breakpoints : GoMap String Breakpoint
  breakpointsByAttrs : GoMap BreakpointAttrs Breakpoint

/-- The key of `breakpointsByAttrs` for these attributes. -/
def BreakpointAttrs.key (a : BreakpointAttrs) : BreakpointAttrs :=
  if a.flowId ≠ "" then { flowId := a.flowId } else a

/-- The breakpoint that a message of `setBreakpoint` describes. -/
def breakpointOf (msg : GoMap String String) : Breakpoint where
  id := msg.getD "breakpointId" ""
  breakpointType := msg.getD "breakpointType" ""
  attrs :=
    { actorId := msg.getD "actorId" "", actorType := msg.getD "actorType" "", path := msg.getD "path" ""
      isRequest := msg.getD "isRequest" "", flowId := msg.getD "flowId" "" }
  conds := msg.getD "conds" ""
  respConds := msg.getD "respConds" ""
  deleteOnHit := msg.getD "deleteOnHit" "" = "true"

namespace Breakpoints

def empty : Breakpoints := ⟨.empty, .empty⟩

def setBreakpoint (s : Breakpoints) (msg : GoMap String String) : Breakpoints :=
  let breakpoint := breakpointOf msg
  let attrs := breakpoint.attrs.key
  if s.breakpointsByAttrs.has attrs then s
  else ⟨s.breakpoints.set breakpoint.id breakpoint, s.breakpointsByAttrs.set attrs breakpoint⟩

def unsetBreakpoint (s : Breakpoints) (id : String) : Breakpoints :=
  let breakpoint := s.breakpoints.getD id {}
  ⟨s.breakpoints.delete id,
    (s.breakpointsByAttrs.delete breakpoint.attrs).delete { flowId := breakpoint.attrs.flowId }⟩

/-! ## Hits -/

section Hits

variable {ν : Type} (runConds : ν → String → Bool) (reqVal respVal : Except String ν)

/-- The conditions of a breakpoint that was found.  `none` is the early return for a value that cannot
be unpacked.  The conditions on the response decide alone if there are any. -/
def checkConds (bk : Breakpoint) : Option Bool := do
  let hit ← if bk.conds ≠ "" then reqVal.toOption.map (runConds · bk.conds) else some true
  if bk.respConds ≠ "" then respVal.toOption.map (runConds · bk.respConds) else some hit

/-- The look-ups, one after the other. -/
def firstHit (m : GoMap BreakpointAttrs Breakpoint) : List BreakpointAttrs → Option Breakpoint
  | [] => none
  | k :: ks =>
    match m.get? k with
    | none => firstHit m ks
    | some bk => (checkConds runConds reqVal respVal bk).bind fun hit =>
      if hit then some bk else firstHit m ks

/-- The breakpoint that is hit.  That `deleteOnHit` then unsets it is a command of its own. -/
def checkBreakpoint (s : Breakpoints) (attrs : BreakpointAttrs) : Option Breakpoint :=
  firstHit runConds reqVal respVal s.breakpointsByAttrs
    [{ flowId := attrs.flowId }, { attrs with flowId := "" }, { attrs with flowId := "", actorId := "" }]

end Hits

/-! ## Consistency -/

/-- The breakpoints by id are those by attributes, each under the attributes it was set with. -/
structure Consistent (s : Breakpoints) : Prop where
  id : ∀ id bk, s.breakpoints.get? id = some bk → bk.id = id
  stored : ∀ k bk, s.breakpointsByAttrs.get? k = some bk ↔
    k = bk.attrs.key ∧ s.breakpoints.get? bk.id = some bk

inductive Command where
  | set (msg : GoMap String String)
  | unset (id : String)

def step (s : Breakpoints) : Command → Option Breakpoints
  | .set msg => some (s.setBreakpoint msg)
  | .unset id => some (s.unsetBreakpoint id)

/-- The commands that keep the maps together: a new id, or attributes that are taken; and an id with a
flow, or no other breakpoint without attributes. -/
def Tidy (s : Breakpoints) : Command → Prop
  | .set msg => s.breakpointsByAttrs.has (breakpointOf msg).attrs.key = true ∨
      s.breakpoints.has (breakpointOf msg).id = false
  | .unset id => (s.breakpoints.getD id {}).attrs.flowId = "" →
      ∀ bk ∈ s.breakpointsByAttrs.get? {}, bk.id = id

instance (s : Breakpoints) : (e : Command) → Decidable (s.Tidy e)
  | .set _ => inferInstanceAs (Decidable (_ ∨ _))
  | .unset id => inferInstanceAs (Decidable ((s.breakpoints.getD id {}).attrs.flowId = "" → _))

variable {s : Breakpoints}

theorem get?_delete {κ μ : Type} [DecidableEq κ] (m : GoMap κ μ) (k k' : κ) :
    (m.delete k).get? k' = if k' = k then none else m.get? k' := Function.update_apply ..

theorem key_flowId (a : BreakpointAttrs) : a.key.flowId = a.flowId := by
  unfold BreakpointAttrs.key
  split <;> rfl

theorem Consistent.set_iff (h : s.Consistent) (msg : GoMap String String) :
    (s.setBreakpoint msg).Consistent ↔ s.Tidy (.set msg) := by
  obtain ⟨hid, hstored⟩ := h
  unfold setBreakpoint
  rw [Tidy]
  generalize breakpointOf msg = bk
  constructor
  · -- An old breakpoint of the same id would still be stored under its own key.
    intro hnew
    by_contra hold
    rw [not_or, Bool.not_eq_false, GoMap.has_eq _ bk.id, Option.isSome_iff_exists] at hold
    obtain ⟨hfree, old, hold⟩ := hold
    have hlisted := hnew.stored old.attrs.key old
    grind [GoMap.get?_set, GoMap.has_eq]
  · intro htidy
    constructor <;> grind [GoMap.get?_set, GoMap.has_eq]

theorem Consistent.unset_iff (h : s.Consistent) (id : String) :
    (s.unsetBreakpoint id).Consistent ↔ s.Tidy (.unset id) := by
  obtain ⟨hid, hstored⟩ := h
  unfold unsetBreakpoint
  rw [Tidy, GoMap.getD_eq]
  constructor
  · -- The breakpoint without attributes would still be listed, and no longer stored.
    intro hnew hflow bk hbk
    have hlisted := (hstored {} bk).mp hbk
    have hgone := hnew.stored {} bk
    simp only [get?_delete, hflow] at hgone
    grind
  · intro htidy
    refine ⟨by grind [get?_delete], fun k bk => ?_⟩
    have hbk := hstored k bk
    have hflow := key_flowId bk.attrs
    cases hb : s.breakpoints.get? id with
    | none =>
      simp only [hb, Option.getD_none, get?_delete] at htidy ⊢
      grind
    | some b =>
      have hbs := hstored b.attrs.key b
      simp only [hb, Option.getD_some, get?_delete] at htidy ⊢
      grind [BreakpointAttrs.key]

/-- A hit stays when breakpoints of another id are deleted. -/
theorem firstHit_of_deleted {ν : Type} {runConds : ν → String → Bool} {reqVal respVal : Except String ν}
    {m m' : GoMap BreakpointAttrs Breakpoint} {id : String} (hid : bk.id ≠ id)
    (hdel : ∀ k, m'.get? k = m.get? k ∨ (m'.get? k = none ∧ ∀ b, m.get? k = some b → b.id = id))
    (hhit : firstHit runConds reqVal respVal m ks = some bk) :
    firstHit runConds reqVal respVal m' ks = some bk := by
  induction ks with
  | nil => exact hhit
  | cons k ks ih =>
    rw [firstHit] at hhit ⊢
    cases hk : m.get? k with
    | none => grind
    | some b =>
      simp only [hk] at hhit
      obtain ⟨hit, hcheck, hhit⟩ := Option.bind_eq_some_iff.mp hhit
      rcases hdel k with hsame | ⟨hgone, hother⟩
      · simp only [hsame, hk, hcheck, Option.bind_some]
        grind
      · simp only [hgone]
        grind

/-- In every history of tidy commands the two maps agree and a breakpoint that is unset takes no hit from
another one; and a command that is not tidy makes the maps disagree. -/
theorem breakpoints_consistent_iff {s : Breakpoints} (h : Reachable step Tidy .empty s) :
    s.Consistent ∧ (∀ e, ∀ s' ∈ s.step e, s'.Consistent ↔ s.Tidy e) ∧
    ∀ (ν : Type) (runConds : ν → String → Bool) (reqVal respVal : Except String ν) (id : String)
      (attrs : BreakpointAttrs) (bk : Breakpoint), s.Tidy (.unset id) → bk.id ≠ id →
      s.checkBreakpoint runConds reqVal respVal attrs = some bk →
      (s.unsetBreakpoint id).checkBreakpoint runConds reqVal respVal attrs = some bk := by
  have hiff : ∀ s : Breakpoints, s.Consistent → ∀ e, ∀ s' ∈ s.step e, s'.Consistent ↔ s.Tidy e := by
    intro s hs e s' hs'
    cases e with
    | set msg => exact Option.some.inj hs' ▸ hs.set_iff msg
    | unset id => exact Option.some.inj hs' ▸ hs.unset_iff id
  have hs : s.Consistent := h.invariant ⟨by simp [empty], by simp [empty]⟩ fun s e s' _ hs hok hstep =>
    (hiff s hs e s' hstep).mpr hok
  refine ⟨hs, hiff s hs, fun _ _ _ _ id attrs bk htidy hid => firstHit_of_deleted hid fun k => ?_⟩
  -- What is gone from the map was of the id.
  have hnew := (hs.unset_iff id).mpr htidy
  cases hk : (s.unsetBreakpoint id).breakpointsByAttrs.get? k with
  | none => grind [get?_delete, unsetBreakpoint, Consistent]
  | some b => grind [get?_delete, unsetBreakpoint]

private def cartBreakpoint : GoMap String String :=
  .ofList [("breakpointId", "b1"), ("actorType", "Cart"), ("isRequest", "request")]

/-- A breakpoint on every request for an actor type, and one without attributes. -/
def twoBreakpoints : List Command := [.set cartBreakpoint, .set (.ofList [("breakpointId", "b2")])]

/-- The id of the breakpoint that a request for a cart hits. -/
def hitByCart (flowId : String) (s : Breakpoints) : Option String :=
  (s.checkBreakpoint (fun _ _ => true) (.ok ()) (.ok ())
    { actorId := "a", actorType := "Cart", isRequest := "request", flowId := flowId }).map (·.id)

/-- The breakpoint without attributes can be unset. -/
theorem breakpoint_unset : ∃ s, run step .empty twoBreakpoints = some s ∧ s.Consistent ∧
    (s.unsetBreakpoint "b2").Consistent := by
  have hok : runOk step Tidy .empty twoBreakpoints = true := by decide +kernel
  obtain ⟨s, hrun, hs⟩ := reachable_of_run .init hok
  have htidy := eq_of_run (fun s => decide (s.Tidy (.unset "b2"))) (a := true) hrun (by decide +kernel)
  have hiff := breakpoints_consistent_iff hs
  exact ⟨s, hrun, hiff.1, (hiff.2.1 (.unset "b2") _ rfl).mpr (of_decide_eq_true htidy)⟩

/-- When `b1` is unset, `b2` is still listed and no longer hit by requests without a flow.  And when `b1` is
set with another actor type, requests for the old one still hit it. -/
theorem breakpoint_lost :
    (run step .empty twoBreakpoints).map (hitByCart "") = some (some "b2") ∧
    (run step .empty (twoBreakpoints ++ [.unset "b1"])).map (fun s =>
      (s.breakpoints.has "b2", hitByCart "" s)) = some (true, none) ∧
    (run step .empty (twoBreakpoints ++ [.set (.ofList [("breakpointId", "b1"), ("actorType", "Order")])])).map
      (fun s => ((s.breakpoints.get? "b1").map (·.attrs.actorType), hitByCart "f" s)) =
        some (some "Order", some "b1") := by
  decide +kernel

end Breakpoints

end Kar.Debugger
