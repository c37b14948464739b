import Kar.Lib.Separator
import Kar.Lib.Simulation
import Kar.Runtime.ActorState

/-!
# The state of an actor as two maps

What the actor-state API is for: a map over keys, and a separate map over pairs of a key and a
subkey.  The two maps are `TwoMaps`, and `TwoMaps.handle` answers the requests from them.

The handlers keep both maps in one hash.  They answer like the two maps as long as no two entries in
use have the same field (`Entry.Clash`), which is the case if no key has a separator and no subkey
is a separator alone (`Entry.clean_eq_of_clash`).  Otherwise one entry is overwritten, read or
removed under the name of another.
-/

namespace Kar.Runtime

open Kar.Lib Kar.Store List

/-! ## Entries -/

theorem separator_toList : "_".toList = ['_'] := rfl

/-- An entry of the state. -/
inductive Entry where
  | plain (key : String)
  | nested (key subkey : String)
  deriving DecidableEq, Repr

variable {e : Entry}

namespace Entry

/-- The entry that the parameters of a request name. -/
def named (key subkey : String) : Entry :=
  if subkey ≠ "" then .nested key subkey else .plain key

/-- The field of the entry in the hash. -/
def field : Entry → String
  | .plain key => flatEntryKey key
  | .nested key subkey => nestedEntryKey key subkey

def key : Entry → String
  | .plain key => key
  | .nested key _ => key

/-- What follows the key and a separator in the field. -/
def rest : Entry → String
  | .plain _ => "_"
  | .nested _ subkey => subkey

theorem field_named (key subkey : String) :
    (named key subkey).field = mangledEntryKey key subkey := by
  unfold named mangledEntryKey
  split <;> rfl

theorem field_eq : e.field = e.key ++ "_" ++ e.rest := by
  cases e <;> rfl

/-- The names of the entries make up the same field: they are equal, or one key extends the other
one by a separator and the rest makes up for it. -/
def Clash (e e' : Entry) : Prop :=
  (e.key = e'.key ∧ e.rest = e'.rest) ∨
    (∃ x, e'.key = e.key ++ "_" ++ x ∧ e.rest = x ++ "_" ++ e'.rest) ∨
      ∃ x, e.key = e'.key ++ "_" ++ x ∧ e'.rest = x ++ "_" ++ e.rest

theorem clash_iff : e.Clash e' ↔ e.field = e'.field := by
  rw [field_eq, field_eq, string_append_sep_inj_iff separator_toList]
  rfl

/-- The key has no separator, and the subkey is not a separator alone. -/
def Clean (e : Entry) : Prop := '_' ∉ e.key.toList ∧ ∀ key subkey, e = .nested key subkey → subkey ≠ "_"

/-- Clean entries do not clash. -/
theorem clean_eq_of_clash (he : e.Clean) (he' : e'.Clean) (h : e.Clash e') :
    e = e' := by
  rw [clash_iff, field_eq, field_eq, string_append_sep_inj separator_toList he.1 he'.1] at h
  cases e with
  | plain =>
    cases e' with
    | plain => exact congrArg Entry.plain h.1
    | nested key' subkey' => exact absurd h.2.symm (he'.2 key' subkey' rfl)
  | nested key subkey =>
    cases e' with
    | plain => exact absurd h.2 (he.2 key subkey rfl)
    | nested =>
      obtain ⟨hkey, hrest⟩ := h
      exact congrArg₂ Entry.nested hkey hrest

end Entry

/-! ## The two maps -/

/-- The state of an actor, as its users see it. -/
structure TwoMaps where
  keys : GoMap String String
  pairs : GoMap (String × String) String

namespace TwoMaps

def empty : TwoMaps := ⟨.empty, .empty⟩

/-- Both maps as one map over the entries. -/
def toMap (m : TwoMaps) : GoMap Entry String
  | .plain key => m.keys.get? key
  | .nested key subkey => m.pairs.get? (key, subkey)

def get? (m : TwoMaps) (e : Entry) : Option String := m.toMap.get? e

def set (m : TwoMaps) (e : Entry) (v : String) : TwoMaps :=
  match e with
  | .plain key => { m with keys := m.keys.set key v }
  | .nested key subkey => { m with pairs := m.pairs.set (key, subkey) v }

def delete (m : TwoMaps) (e : Entry) : TwoMaps :=
  match e with
  | .plain key => { m with keys := m.keys.delete key }
  | .nested key subkey => { m with pairs := m.pairs.delete (key, subkey) }

@[simp] theorem get?_toMap_plain (m : TwoMaps) (key : String) :
    m.toMap.get? (.plain key) = m.keys.get? key := rfl

@[simp] theorem get?_toMap_nested (m : TwoMaps) (key subkey : String) :
    m.toMap.get? (.nested key subkey) = m.pairs.get? (key, subkey) := rfl

theorem toMap_empty : empty.toMap = GoMap.empty := by
  funext e
  cases e <;> rfl

theorem toMap_set (m : TwoMaps) (e : Entry) (v : String) :
    (m.set e v).toMap = m.toMap.set e v := by
  funext e'
  show (m.set e v).toMap.get? e' = (m.toMap.set e v).get? e'
  rw [GoMap.get?_set]
  cases e <;> cases e' <;> simp [set, GoMap.get?_set]

theorem toMap_delete (m : TwoMaps) (e : Entry) : (m.delete e).toMap = m.toMap.delete e := by
  funext e'
  show (m.delete e).toMap.get? e' = (m.toMap.delete e).get? e'
  rw [GoMap.get?_delete]
  cases e <;> cases e' <;> simp [delete, GoMap.get?_delete]

/-- The assignments, one after the other. -/
def setAll (m : TwoMaps) (l : List (Entry × String)) : TwoMaps :=
  l.foldl (fun m p => m.set p.1 p.2) m

def deleteAll (m : TwoMaps) (l : List Entry) : TwoMaps := l.foldl delete m

theorem toMap_setAll (m : TwoMaps) (l : List (Entry × String)) :
    (m.setAll l).toMap = l.foldl (fun m p => m.set p.1 p.2) m.toMap := by
  unfold setAll
  induction l generalizing m with
  | nil => rfl
  | cons p l ih => rw [foldl_cons, ih, toMap_set, foldl_cons]

theorem toMap_deleteAll (m : TwoMaps) (l : List Entry) :
    (m.deleteAll l).toMap = l.foldl GoMap.delete m.toMap := by
  unfold deleteAll
  induction l generalizing m with
  | nil => rfl
  | cons e l ih => rw [foldl_cons, ih, toMap_delete, foldl_cons]

end TwoMaps

/-! ## Requests -/

namespace StateUpdateOp

/-- The entries that the update removes. -/
def removed (op : StateUpdateOp) : List Entry :=
  op.removals.map .plain ++ op.submapRemovals.flatMap fun r => r.2.map (.nested r.1)

/-- The entries that the update sets. -/
def assigned (op : StateUpdateOp) : List (Entry × String) :=
  op.updates.map (fun u => (.plain u.1, u.2)) ++
    op.submapUpdates.flatMap fun s => s.2.map fun u => (.nested s.1 u.1, u.2)

theorem toClear_eq (op : StateUpdateOp) : op.toClear = op.removed.map Entry.field := by
  simp [toClear, removed, map_flatMap, Entry.field, Function.comp_def]

theorem assignments_eq (op : StateUpdateOp) :
    op.assignments = op.assigned.map fun p => (p.1.field, p.2) := by
  simp [assignments, assigned, map_flatMap, Entry.field, Function.comp_def]

end StateUpdateOp

/-- The entries that a request is about. -/
def StateOp.entries : StateOp → List Entry
  | .containsKey key subkey => [.named key subkey]
  | .set key subkey _ => [.named key subkey]
  | .get key subkey _ => [.named key subkey]
  | .del key subkey => [.named key subkey]
  | .update op => op.removed ++ op.assigned.map Prod.fst

/-- The answers of two maps.  An update performs its removals and then its assignments; it counts the
entries that were present and are removed, and the entries that were absent and are set. -/
def TwoMaps.handle (t id : String) (m : TwoMaps) : StateOp → TwoMaps × Except String Reply
  | .containsKey key subkey =>
    (m, .ok (if (m.get? (.named key subkey)).isSome then .code 200 else .error "key not present" 404))
  | .set key subkey body =>
    (m.set (.named key subkey) body,
      .ok (if (m.get? (.named key subkey)).isSome then .code 204
        else .created (location t id key subkey)))
  | .get key subkey nilOnAbsent =>
    (m, .ok (match m.get? (.named key subkey) with
      | some v => .json v
      | none => if nilOnAbsent then .text "" else .error "Not Found" 404))
  | .del key subkey =>
    (m.delete (.named key subkey),
      .ok (.text (toString (if (m.get? (.named key subkey)).isSome then 1 else 0))))
  | .update op =>
    let m' := m.deleteAll op.removed
    let numRemoved := (op.removed.toFinset.filter fun e => (m.get? e).isSome).card
    let numAdded := ((op.assigned.map Prod.fst).toFinset.filter fun e => m'.get? e = none).card
    (m'.setAll op.assigned, .ok (.json (updateResponse numRemoved numAdded)))

/-- The hash holds the two maps, with entries in `E`. -/
def Holds (E : Set Entry) (h : StateHash) (m : TwoMaps) : Prop :=
  Represents Entry.field E h m.toMap

namespace Holds

theorem empty : Holds E ∅ TwoMaps.empty := by
  rw [Holds, TwoMaps.toMap_empty]
  exact Represents.empty

section

variable (hinj : Set.InjOn Entry.field E) (hholds : Holds E h m)

include hinj hholds

theorem lookup (he : e ∈ E) : h.lookup e.field = m.get? e :=
  hholds.lookup_enc hinj he

theorem mem (he : e ∈ E) : e.field ∈ h ↔ (m.get? e).isSome :=
  hholds.mem_enc hinj he

theorem set (he : e ∈ E) (v : String) :
    Holds E (AList.insert e.field v h) (m.set e v) := by
  rw [Holds, TwoMaps.toMap_set]
  exact hholds.insert hinj he v

theorem delete (he : e ∈ E) : Holds E (AList.erase e.field h) (m.delete e) := by
  rw [Holds, TwoMaps.toMap_delete]
  exact hholds.erase hinj he

/-- The removals of an update. -/
theorem deleteAll (hl : ∀ e ∈ l, e ∈ E) :
    Holds E (h.remove (l.map Entry.field)).1 (m.deleteAll l) ∧
      (h.remove (l.map Entry.field)).2 = (l.toFinset.filter fun e => (m.get? e).isSome).card := by
  rw [Holds, TwoMaps.toMap_deleteAll]
  exact ⟨hholds.remove hinj hl, hholds.remove_count hinj hl⟩

/-- The assignments of an update, which are collected in a map first. -/
theorem setAll (hl : ∀ p ∈ l, p.1 ∈ E) :
    Holds E (hSetMultiple h (Hash.ofList (l.map fun p => (p.1.field, p.2)))).1 (m.setAll l) ∧
      (hSetMultiple h (Hash.ofList (l.map fun p => (p.1.field, p.2)))).2 = ((l.map
      Prod.fst).toFinset.filter fun e => m.get? e = none).card := by
  obtain ⟨hlookup, hcount⟩ := hSetMultiple_ofList h (l.map fun p => (p.1.field, p.2))
  rw [Holds, TwoMaps.toMap_setAll, hcount]
  exact ⟨(hholds.hset hinj hl).congr hlookup, hholds.hset_count hinj hl⟩

/-- One request: the handler answers like the two maps, and the hash goes on to hold them. -/
theorem handle (t id : String) (op : StateOp) (hop : ∀ e ∈ op.entries, e ∈ E) :
    (op.handle t id h).2 = (m.handle t id op).2 ∧
      Holds E (op.handle t id h).1 (m.handle t id op).1 := by
  cases op with
  | containsKey key subkey =>
    have hmem := hholds.mem hinj (hop _ mem_cons_self)
    rw [Entry.field_named] at hmem
    simp only [StateOp.handle, routeImplContainsKey, hExists, hmem, TwoMaps.handle]
    by_cases hsome : (m.get? (.named key subkey)).isSome <;> simp [hsome, hholds]
  | set key subkey body =>
    have he : .named key subkey ∈ E := hop _ mem_cons_self
    have hmem := hholds.mem hinj he
    have hset := hholds.set hinj he body
    rw [Entry.field_named] at hmem hset
    simp only [StateOp.handle, routeImplSet, hSet, Hash.hset, hmem, TwoMaps.handle]
    by_cases hsome : (m.get? (.named key subkey)).isSome <;> simp [hsome, hset]
  | get key subkey nilOnAbsent =>
    have hlookup := hholds.lookup hinj (hop _ mem_cons_self)
    rw [Entry.field_named] at hlookup
    simp only [StateOp.handle, routeImplGet, hGet, hlookup, TwoMaps.handle]
    cases m.get? (.named key subkey) with
    | some => exact ⟨rfl, hholds⟩
    | none => cases nilOnAbsent <;> exact ⟨rfl, hholds⟩
  | del key subkey =>
    have he : .named key subkey ∈ E := hop _ mem_cons_self
    have hmem := hholds.mem hinj he
    have hdelete := hholds.delete hinj he
    rw [Entry.field_named] at hmem hdelete
    simp only [StateOp.handle, routeImplDel, hDel, Hash.remove, hmem, TwoMaps.handle]
    by_cases hsome : (m.get? (.named key subkey)).isSome <;> simp [hsome, hdelete]
  | update =>
    simp only [StateOp.entries, mem_append] at hop
    obtain ⟨hremoved, hcleared⟩ := hholds.deleteAll hinj fun e he => hop e (.inl he)
    obtain ⟨hassigned, hadded⟩ := Holds.setAll hinj hremoved fun p hp =>
      hop p.1 (.inr (mem_map_of_mem hp))
    simp only [StateOp.handle, routeImplStateUpdate_eq, TwoMaps.handle, StateUpdateOp.toUpdate,
      StateUpdateOp.toClear_eq, StateUpdateOp.assignments_eq, hcleared, hadded]
    exact ⟨trivial, hassigned⟩

end

end Holds

/-! ## Sequences of requests -/

/-- The replies of the handlers to a sequence of requests for an actor without state. -/
def replies (t id : String) (ops : List StateOp) : List (Except String Reply) :=
  outputs (fun h op => op.handle t id h) ∅ ops

/-- The hash after a sequence of requests. -/
def hashAfter (t id : String) (ops : List StateOp) : StateHash :=
  after (fun h op => op.handle t id h) ∅ ops

/-- The replies of the two maps. -/
def TwoMaps.replies (t id : String) (ops : List StateOp) : List (Except String Reply) :=
  outputs (TwoMaps.handle t id) .empty ops

/-- The two maps after a sequence of requests. -/
def mapsAfter (t id : String) (ops : List StateOp) : TwoMaps :=
  after (TwoMaps.handle t id) .empty ops

/-- The request is about entries in `E` only. -/
def StateOp.Over (E : Set Entry) (op : StateOp) : Prop := ∀ e ∈ op.entries, e ∈ E

/-- Entries without a clash have different fields. -/
theorem injOn_field (hE : ∀ e ∈ E, ∀ e' ∈ E, e.Clash e' → e = e') :
    Set.InjOn Entry.field E :=
  fun e he e' he' h => hE e he e' he' (Entry.clash_iff.mpr h)

/-- A sequence of requests over entries with different fields. -/
theorem replies_eq (hinj : Set.InjOn Entry.field E) (t id : String)
    (ops : List StateOp) (hops : ∀ op ∈ ops, op.Over E) :
    replies t id ops = TwoMaps.replies t id ops ∧
      Holds E (hashAfter t id ops) (mapsAfter t id ops) :=
  simulation (R := Holds E) (fun _ _ op hR hop => hR.handle hinj t id op hop) Holds.empty hops

/-- The update that sets one entry. -/
def Entry.put (e : Entry) (v : String) : StateUpdateOp :=
  match e with
  | .plain key => { updates := [(key, v)] }
  | .nested key subkey => { submapUpdates := [(key, [(subkey, v)])] }

theorem Entry.removed_put (e : Entry) (v : String) : (e.put v).removed = [] := by
  cases e <;> rfl

theorem Entry.assigned_put (e : Entry) (v : String) : (e.put v).assigned = [(e, v)] := by
  cases e <;> rfl

theorem Entry.put_over (he : e ∈ E) (v : String) :
    (StateOp.update (e.put v)).Over E := by
  intro e' he'
  rw [StateOp.entries, Entry.removed_put, Entry.assigned_put] at he'
  rwa [mem_singleton.mp he']

/-- The handler of an update that sets one entry counts it if its field is absent. -/
theorem Entry.handle_put (t id : String) (h : StateHash) (e : Entry) (v : String) :
    ((StateOp.update (e.put v)).handle t id h).2 = .ok (.json (updateResponse 0 (if e.field ∈ h then
        0 else 1))) ∧ ∀ k, ((StateOp.update (e.put v)).handle t id h).1.lookup k = if k = e.field
        then some v else h.lookup k := by
  obtain ⟨hlookup, hcount⟩ := hSetMultiple_ofList h [(e.field, v)]
  have hhandle : (StateOp.update (e.put v)).handle t id h =
      ((hSetMultiple h (Hash.ofList [(e.field, v)])).1, .ok (.json (updateResponse 0
        (hSetMultiple h (Hash.ofList [(e.field, v)])).2))) := by
    simp only [StateOp.handle, routeImplStateUpdate_eq, StateUpdateOp.toUpdate,
      StateUpdateOp.toClear_eq, StateUpdateOp.assignments_eq, Entry.removed_put, Entry.assigned_put]
    rfl
  rw [hhandle]
  refine ⟨by simp [hcount, Hash.hset], fun k => ?_⟩
  simp only [hlookup, Hash.lookup_hset, GoMap.get?_ofList_cons, GoMap.get?_ofList_nil, Option.none_or]
  split <;> rfl

/-- **Two maps.**  The handlers answer every sequence of requests over the entries `E` like the two
maps, exactly if no two different entries of `E` clash. -/
theorem replies_eq_iff_no_clash (t id : String) (E : Set Entry) :
    (∀ ops : List StateOp, (∀ op ∈ ops, op.Over E) →
      replies t id ops = TwoMaps.replies t id ops) ↔
        ∀ e ∈ E, ∀ e' ∈ E, e.Clash e' → e = e' := by
  constructor
  · intro h e he e' he' hclash
    by_contra hne
    -- Both entries are set: the hash counts one field, and the maps count two entries.
    have hops := h [.update (e.put "null"), .update (e'.put "null")] (by
      intro op hop
      simp only [List.mem_cons, List.not_mem_nil, or_false] at hop
      rcases hop with rfl | rfl
      · exact Entry.put_over he _
      · exact Entry.put_over he' _)
    obtain ⟨-, hlookup⟩ := Entry.handle_put t id ∅ e "null"
    have hmem : e'.field ∈ ((StateOp.update (e.put "null")).handle t id ∅).1 := by
      rw [Hash.mem_iff_lookup]
      exact ⟨"null", by rw [hlookup, if_pos (Entry.clash_iff.mp hclash).symm]⟩
    obtain ⟨hreply, -⟩ := Entry.handle_put t id ((StateOp.update (e.put "null")).handle t id ∅).1
      e' "null"
    rw [if_pos hmem] at hreply
    have hmaps : ((TwoMaps.handle t id .empty (.update (e.put "null"))).1.handle t id
        (.update (e'.put "null"))).2 = .ok (.json (updateResponse 0 1)) := by
      simp [TwoMaps.handle, Entry.removed_put, Entry.assigned_put, TwoMaps.deleteAll,
        TwoMaps.setAll, TwoMaps.get?, TwoMaps.toMap_set, TwoMaps.toMap_empty, GoMap.get?_set,
        Ne.symm hne, Finset.filter_singleton]
    simp only [replies, TwoMaps.replies, outputs, List.cons.injEq] at hops
    rw [hreply, hmaps] at hops
    exact absurd hops.2.1 (by decide)
  · intro hE ops hops
    exact (replies_eq (injOn_field hE) t id ops hops).1

/-- The plain entry `a` is overwritten by the entry `_` of the map `a`. -/
theorem marker_subkey_overwrites :
    replies "T" "i" [.set "a" "" "1", .set "a" "_" "2", .get "a" "" false] =
        [.ok (.created "/kar/v1/actor/T/i/state/a"), .ok (.code 204), .ok (.json "2")] ∧
      TwoMaps.replies "T" "i" [.set "a" "" "1", .set "a" "_" "2", .get "a" "" false] =
        [.ok (.created "/kar/v1/actor/T/i/state/a"),
          .ok (.created "/kar/v1/actor/T/i/state/a/_"), .ok (.json "1")] := by
  decide +kernel

end Kar.Runtime
