import Kar.Runtime.StateMaps

/-!
# Reading the whole state

`actorGetAllState` of `core/internal/runtime/routes-state.go`.  The loop runs over the fields of the
hash in the order of a Go map, which is any order.  It takes each field apart at the first separator
and fills a map from keys to JSON values: a plain entry is the value of its key, and an entry of a
map is a field of an object.

The loop treats every key for itself, so what it makes of a key is the fold of `slotStep` over the
fields of this key (`getAll_eq_ok_iff`).

Two things go wrong.  A key with a separator, and the subkey `_`, are not what the field is taken
apart into (`getAll_shows_iff_clean`).  And if a key is used both as a plain entry and as a map, the
result depends on the order, or the type assertion on the plain value panics
(`getAll_total_iff_agree`).
-/

namespace Kar.Runtime

open Kar.Lib Kar.Store

/-! ## JSON values -/

/-- A JSON value, as far as the loop looks at it.  A number, a string, a truth value or an array is a
`scalar`. -/
inductive Value where
  | null
  | scalar (text : String)
  | object (fields : String → Option Value)

/-- `json.Unmarshal`: `none` is an error, which an empty text is. -/
structure Json where
  unmarshal : String → Option Value
  unmarshal_empty : unmarshal "" = none

/-- `json.Unmarshal` into a fresh variable, with the error ignored. -/
def Json.read (j : Json) (s : String) : Value := (j.unmarshal s).getD .null

/-! ## The loop -/

/-- One turn of the loop.  The text of the panic names the type of the value, too. -/
def getAllStep (j : Json) (m : GoMap String Value) (i s : String) :
    Except String (GoMap String Value) :=
  let v := j.read s
  match cutString '_' i with
  | none => .error "index out of range [1] with length 1"
  | some (key, subkey) =>
    if subkey = "_" then .ok (m.set key v)
    else
      let m := match m.getD key .null with
        | .null => m.set key (.object GoMap.empty)
        | _ => m
      match m.getD key .null with
      | .object fields => .ok (m.set key (.object (GoMap.set fields subkey v)))
      | _ => .error "interface conversion: interface \x7b\x7d is not map[string]interface \x7b\x7d"

/-- The reply of `HGETALL` comes in any order. -/
def actorGetAllState (j : Json) (reply : List (String × String)) :
    Except String (GoMap String Value) :=
  reply.foldlM (fun m p => getAllStep j m p.1 p.2) GoMap.empty

/-! ## One key -/

/-- What a field does to the value of its key. -/
def slotStep (slot : Option Value) (p : String × Value) : Except String (Option Value) :=
  if p.1 = "_" then .ok (some p.2)
  else
    match slot with
    | none | some .null => .ok (some (.object (GoMap.empty.set p.1 p.2)))
    | some (.object fields) => .ok (some (.object (GoMap.set fields p.1 p.2)))
    | some (.scalar _) =>
      .error "interface conversion: interface \x7b\x7d is not map[string]interface \x7b\x7d"

theorem slotStep_plain (slot : Option Value) (v : Value) :
    slotStep slot ("_", v) = .ok (some v) := rfl

variable {i k subkey s rest : String} {l : List (String × Value)}

theorem slotStep_object (hp : p.1 ≠ "_") (fields : GoMap String Value) :
    slotStep (some (.object fields)) p = .ok (some (.object (fields.set p.1 p.2))) := by
  simp [slotStep, if_neg hp]

theorem slotStep_none (hp : p.1 ≠ "_") :
    slotStep none p = .ok (some (.object (GoMap.empty.set p.1 p.2))) := by
  simp [slotStep, if_neg hp]

theorem slotStep_null (hp : p.1 ≠ "_") :
    slotStep (some .null) p = .ok (some (.object (GoMap.empty.set p.1 p.2))) := by
  simp [slotStep, if_neg hp]

theorem slotStep_scalar (hp : p.1 ≠ "_") :
    ∃ panic, slotStep (some (.scalar text)) p = .error panic :=
  ⟨_, by simp only [slotStep, if_neg hp]; rfl⟩

/-- What follows the key `k` in a field, if the field is taken apart into `k` and something. -/
def restOf (k i : String) : Option String :=
  match cutString '_' i with
  | some (key, subkey) => if key = k then some subkey else none
  | none => none

/-- The fields of the key `k`. -/
def slotEvents (j : Json) (k : String) (l : List (String × String)) : List (String × Value) :=
  l.filterMap fun p => (restOf k p.1).map fun subkey => (subkey, j.read p.2)

theorem restOf_eq_some :
    restOf k i = some subkey ↔ cutString '_' i = some (k, subkey) := by
  unfold restOf
  cases hcut : cutString '_' i with
  | none => simp
  | some ks =>
    obtain ⟨key, rest⟩ := ks
    by_cases hkey : key = k <;> simp [hkey]

/-- One turn of the loop changes the value of one key. -/
theorem getAllStep_eq (j : Json) (m : GoMap String Value) (hcut : cutString '_' i = some (key, subkey)) :
    getAllStep j m i s =
      (slotStep (m.get? key) (subkey, j.read s)).map (Function.update m key) := by
  have hset : ∀ v w : Value, (m.set key v).set key w = m.set key w := by
    intro v w
    funext k
    show ((m.set key v).set key w).get? k = (m.set key w).get? k
    simp only [GoMap.get?_set]
    split <;> rfl
  simp only [getAllStep, hcut, slotStep]
  by_cases hsub : subkey = "_"
  · simp only [hsub, if_true]
    rfl
  simp only [if_neg hsub, GoMap.getD_eq]
  cases hslot : m.get? key with
  | none => simp [Except.map, hset]; rfl
  | some v =>
    cases v with
    | null => simp [Except.map, hset]; rfl
    | scalar => simp [hslot, Except.map]; rfl
    | object => simp [hslot, Except.map]; rfl

theorem slotEvents_cons (j : Json) (k : String)
    (hcut : cutString '_' i = some (key, subkey)) (l : List (String × String)) :
    slotEvents j k ((i, s) :: l) =
      if key = k then (subkey, j.read s) :: slotEvents j k l else slotEvents j k l := by
  by_cases hkey : key = k <;> simp [slotEvents, restOf, hcut, hkey]

/-- The loop treats every key for itself. -/
theorem foldlM_getAllStep (j : Json) {l : List (String × String)}
    (hcut : ∀ p ∈ l, (cutString '_' p.1).isSome) (m m' : GoMap String Value) :
    l.foldlM (fun m p => getAllStep j m p.1 p.2) m = .ok m' ↔
      ∀ k, (slotEvents j k l).foldlM slotStep (m.get? k) = .ok (m'.get? k) := by
  induction l generalizing m with
  | nil =>
    show Except.ok m = Except.ok m' ↔ ∀ k, Except.ok (m.get? k) = Except.ok (m'.get? k)
    simp only [Except.ok.injEq]
    exact ⟨fun h k => by rw [h], fun h => funext h⟩
  | cons p l ih =>
    obtain ⟨⟨key, subkey⟩, hp⟩ := Option.isSome_iff_exists.mp (hcut p List.mem_cons_self)
    have ih := ih fun q hq => hcut q (List.mem_cons_of_mem p hq)
    simp only [List.foldlM_cons, getAllStep_eq j m hp, slotEvents_cons j _ hp]
    cases hslot : slotStep (m.get? key) (subkey, j.read p.2) with
    | error =>
      constructor
      · intro h
        cases h
      · intro h
        have hkey := h key
        rw [if_pos rfl, List.foldlM_cons, hslot] at hkey
        cases hkey
    | ok slot =>
      have hget : ∀ k, GoMap.get? (Function.update m key slot) k =
          if k = key then slot else m.get? k := Function.update_apply (β := Option Value) m key slot
      refine (ih (Function.update m key slot)).trans (forall_congr' fun k => ?_)
      by_cases hkey : key = k
      · rw [if_pos hkey, List.foldlM_cons, hget, if_pos hkey.symm, ← hkey, hslot]
        rfl
      · rw [if_neg hkey, hget, if_neg (Ne.symm hkey)]

/-- What the loop returns for a key is the fold over the fields of the key. -/
theorem getAll_eq_ok_iff (j : Json) {l : List (String × String)}
    (hcut : ∀ p ∈ l, (cutString '_' p.1).isSome) (r : GoMap String Value) :
    actorGetAllState j l = .ok r ↔ ∀ k, (slotEvents j k l).foldlM slotStep none = .ok (r.get? k) :=
  foldlM_getAllStep j hcut GoMap.empty r

/-! ## The fields of one key -/

/-- Entries of a map are added to an object. -/
theorem foldlM_slotStep_object (hl : ∀ p ∈ l, p.1 ≠ "_") (fields : GoMap String Value) :
    l.foldlM slotStep (some (.object fields)) =
      .ok (some (.object (l.foldl (fun m p => m.set p.1 p.2) fields : GoMap String Value))) := by
  induction l generalizing fields with
  | nil => rfl
  | cons p l ih =>
    rw [List.foldlM_cons, slotStep_object (hl p List.mem_cons_self)]
    exact ih (fun q hq => hl q (List.mem_cons_of_mem p hq)) (fields.set p.1 p.2)

/-- Entries of a map make an object. -/
theorem foldlM_slotStep_none (hl : ∀ p ∈ l, p.1 ≠ "_") :
    l.foldlM slotStep none = .ok (if l = [] then none else some (.object (GoMap.ofList l))) := by
  cases l with
  | nil => rfl
  | cons p =>
    rw [List.foldlM_cons, slotStep_none (hl p List.mem_cons_self), if_neg (by simp)]
    exact foldlM_slotStep_object (fun q hq => hl q (List.mem_cons_of_mem p hq)) _

/-- A plain entry overwrites the entries of the map before it. -/
theorem foldlM_slotStep_plain (hl : ∀ p ∈ l, p.1 ≠ "_") (v : Value) (r : List (String × Value)) :
    (l ++ ("_", v) :: r).foldlM slotStep none = r.foldlM slotStep (some v) := by
  rw [List.foldlM_append, foldlM_slotStep_none hl]
  rfl

theorem mem_slotEvents {l : List (String × String)}
    : (rest, v) ∈ slotEvents j k l ↔
      ∃ i s, (i, s) ∈ l ∧ cutString '_' i = some (k, rest) ∧ j.read s = v := by
  simp only [slotEvents, List.mem_filterMap, Option.map_eq_some_iff, restOf_eq_some,
    Prod.mk.injEq, Prod.exists]
  constructor
  · intro h
    obtain ⟨i, s, hmem, rest', hcut, rfl, rfl⟩ := h
    exact ⟨i, s, hmem, hcut, rfl⟩
  · intro h
    obtain ⟨i, s, hmem, hcut, rfl⟩ := h
    exact ⟨i, s, hmem, rest, hcut, rfl, rfl⟩

/-- Distinct fields of one key have distinct rests. -/
theorem nodup_slotEvents (j : Json) (k : String) {l : List (String × String)}
    (hl : (l.map Prod.fst).Nodup) : ((slotEvents j k l).map Prod.fst).Nodup := by
  have hmap : (slotEvents j k l).map Prod.fst = (l.map Prod.fst).filterMap (restOf k) := by
    rw [slotEvents, List.map_filterMap, List.filterMap_map]
    refine congrArg (List.filterMap · l) (funext fun p => ?_)
    simp [Function.comp_def]
  rw [hmap]
  refine hl.filterMap fun i i' rest hi hi' => ?_
  rw [Option.mem_def, restOf_eq_some] at hi hi'
  rw [(cutString_eq_some separator_toList hi).2, (cutString_eq_some separator_toList hi').2]

/-! ## The fields of a state -/

namespace Holds

variable {order : List (String × String)}

/-- Every field is taken apart. -/
theorem cut_isSome (hholds : Holds E h m) (horder : order.Perm h.pairs) :
    ∀ p ∈ order, (cutString '_' p.1).isSome := by
  intro p hp
  obtain ⟨e, he, -⟩ := (hholds.lookup_iff p.1 p.2).mp (Hash.mem_pairs.mp (horder.mem_iff.mp hp))
  rw [← he, Entry.field_eq]
  exact cutString_isSome separator_toList

/-- The fields of the key `k` are the entries of the state with this key. -/
theorem mem_slotEvents_iff (hholds : Holds E h m) (hE : ∀ e ∈ E, e.Clean)
    (horder : order.Perm h.pairs) :
    (rest, v) ∈ slotEvents j k order ↔
      ∃ e s, m.get? e = some s ∧ e.key = k ∧ e.rest = rest ∧ j.read s = v := by
  have hcut : ∀ e s, m.get? e = some s → cutString '_' e.field = some (e.key, e.rest) := by
    intro e s hs
    rw [Entry.field_eq]
    exact cutString_append_sep separator_toList (hE e (hholds.support e s hs)).1
  rw [mem_slotEvents]
  constructor
  · intro hmem
    obtain ⟨i, s, hmem, hi, rfl⟩ := hmem
    obtain ⟨e, rfl, hs⟩ := (hholds.lookup_iff i s).mp (Hash.mem_pairs.mp (horder.mem_iff.mp hmem))
    rw [hcut e s hs, Option.some.injEq, Prod.mk.injEq] at hi
    exact ⟨e, s, hs, hi.1, hi.2, rfl⟩
  · intro hmem
    obtain ⟨e, s, hs, rfl, rfl, rfl⟩ := hmem
    refine ⟨e.field, s, ?_, hcut e s hs, rfl⟩
    exact horder.mem_iff.mpr (Hash.mem_pairs.mpr ((hholds.lookup_iff _ _).mpr ⟨e, rfl, hs⟩))

/-- A field of the key `k` that is marked as plain is the plain entry. -/
theorem mem_plain_iff (hholds : Holds E h m) (hE : ∀ e ∈ E, e.Clean)
    (horder : order.Perm h.pairs) (j : Json) :
    ("_", v) ∈ slotEvents j k order ↔ ∃ s, m.keys.get? k = some s ∧ j.read s = v := by
  rw [hholds.mem_slotEvents_iff hE horder]
  constructor
  · intro hmem
    obtain ⟨e, s, hs, rfl, hrest, rfl⟩ := hmem
    cases e with
    | plain => exact ⟨s, hs, rfl⟩
    | nested key subkey => exact absurd hrest ((hE _ (hholds.support _ s hs)).2 key subkey rfl)
  · intro hmem
    obtain ⟨s, hs, rfl⟩ := hmem
    exact ⟨.plain k, s, hs, rfl, rfl, rfl⟩

/-- Every other field of the key `k` is an entry of the map `k`. -/
theorem mem_nested_iff (hholds : Holds E h m) (hE : ∀ e ∈ E, e.Clean)
    (horder : order.Perm h.pairs) (j : Json) (hsub : subkey ≠ "_") :
    (subkey, v) ∈ slotEvents j k order ↔ ∃ s, m.pairs.get? (k, subkey) = some s ∧ j.read s = v := by
  rw [hholds.mem_slotEvents_iff hE horder]
  constructor
  · intro hmem
    obtain ⟨e, s, hs, rfl, rfl, rfl⟩ := hmem
    cases e with
    | plain => exact absurd rfl hsub
    | nested => exact ⟨s, hs, rfl⟩
  · intro hmem
    obtain ⟨s, hs, rfl⟩ := hmem
    exact ⟨.nested k subkey, s, hs, rfl, rfl, rfl⟩

end Holds

/-! ## What is read -/

open Classical in
/-- The whole state: a plain entry is the value of its key, and a map with entries is an object. -/
noncomputable def TwoMaps.shown (j : Json) (m : TwoMaps) : GoMap String Value := fun k =>
  match m.keys.get? k with
  | some s => some (j.read s)
  | none =>
    if ∃ subkey, m.pairs.get? (k, subkey) ≠ none then
      some (.object fun subkey => (m.pairs.get? (k, subkey)).map j.read)
    else none

/-- No key is used both as a plain entry and as a map. -/
def TwoMaps.Separate (m : TwoMaps) : Prop :=
  ∀ k s, m.keys.get? k = some s → ∀ subkey, m.pairs.get? (k, subkey) = none

/-- If a key is used both ways, the plain value is an object that has the entries of the map. -/
def TwoMaps.Agree (j : Json) (m : TwoMaps) : Prop :=
  ∀ k s, m.keys.get? k = some s → ∀ subkey v, m.pairs.get? (k, subkey) = some v →
    ∃ fields, j.read s = .object fields ∧ fields subkey = some (j.read v)

theorem TwoMaps.Separate.agree {m : TwoMaps} (h : m.Separate) (j : Json) : m.Agree j := by
  intro k s hs subkey v hv
  rw [h k s hs subkey] at hv
  exact absurd hv (by simp)

namespace TwoMaps

variable {m : TwoMaps}

theorem shown_of_plain (hs : m.keys.get? k = some s) :
    (m.shown j).get? k = some (j.read s) := by
  show m.shown j k = _
  rw [shown, hs]

theorem shown_of_nested (hk : m.keys.get? k = none) {v : String}
    (hv : m.pairs.get? (k, subkey) = some v) : (m.shown j).get? k =
      some (.object fun subkey => (m.pairs.get? (k, subkey)).map j.read) := by
  show m.shown j k = _
  rw [shown, hk]
  exact if_pos ⟨subkey, by rw [hv]; simp⟩

theorem shown_of_absent (hk : m.keys.get? k = none) (h : ∀ subkey, m.pairs.get? (k, subkey) = none) :
    (m.shown j).get? k = none := by
  show m.shown j k = _
  rw [shown, hk]
  exact if_neg fun ⟨subkey, hne⟩ => hne (h subkey)

end TwoMaps

/-- Assignments of what is there change nothing. -/
theorem foldl_set_eq_self {fields : GoMap String Value} (hl : ∀ p ∈ l, fields.get? p.1 = some p.2) :
    l.foldl (fun m p => m.set p.1 p.2) fields = fields := by
  induction l with
  | nil => rfl
  | cons p l ih =>
    have hset : fields.set p.1 p.2 = fields := by
      funext k
      show (fields.set p.1 p.2).get? k = fields.get? k
      rw [GoMap.get?_set]
      split
      · rename_i hk
        rw [hk, hl p List.mem_cons_self]
      · rfl
    rw [List.foldl_cons, hset]
    exact ih fun q hq => hl q (List.mem_cons_of_mem p hq)

namespace Holds

variable {h : StateHash} {order : List (String × String)}

theorem nodup_events (horder : order.Perm h.pairs) (j : Json) (k : String) :
    ((slotEvents j k order).map Prod.fst).Nodup :=
  nodup_slotEvents j k ((horder.map Prod.fst).nodup_iff.mpr h.nodup_pairs)

variable (hholds : Holds E h m) (hE : ∀ e ∈ E, e.Clean) (horder : order.Perm h.pairs)

include hholds hE horder

/-- The entries of a map are the fields of its object. -/
theorem ofList_slotEvents (j : Json) (hk : m.keys.get? k = none) :
    GoMap.ofList (slotEvents j k order) = fun subkey => (m.pairs.get? (k, subkey)).map j.read := by
  funext subkey
  cases hs : m.pairs.get? (k, subkey) with
  | some s =>
    have hsub : subkey ≠ "_" := (hE _ (hholds.support (.nested k subkey) s hs)).2 k subkey rfl
    exact GoMap.get?_ofList_of_mem (nodup_events horder j k)
      ((hholds.mem_nested_iff hE horder j hsub).mpr ⟨s, hs, rfl⟩)
  | none =>
    refine GoMap.get?_ofList_eq_none fun hmem => ?_
    obtain ⟨⟨rest, v⟩, hevent, rfl⟩ := List.mem_map.mp hmem
    by_cases hsub : rest = "_"
    · rw [hsub, hholds.mem_plain_iff hE horder, hk] at hevent
      simp at hevent
    · obtain ⟨s, hs', -⟩ := (hholds.mem_nested_iff hE horder j hsub).mp hevent
      exact absurd (hs.symm.trans hs') (by simp)

/-- The fields of a key without a plain entry. -/
theorem foldlM_of_not_plain (j : Json) (hk : m.keys.get? k = none) :
    (slotEvents j k order).foldlM slotStep none = .ok ((m.shown j).get? k) := by
  have hnested : ∀ p ∈ slotEvents j k order, p.1 ≠ "_" := by
    intro p hp hplain
    obtain ⟨rest, v⟩ := p
    rw [show rest = "_" from hplain, hholds.mem_plain_iff hE horder, hk] at hp
    simp at hp
  have hfields := hholds.ofList_slotEvents hE horder j hk
  rw [foldlM_slotStep_none hnested, hfields]
  cases hevents : slotEvents j k order with
  | nil =>
    rw [TwoMaps.shown_of_absent hk, if_pos rfl]
    intro subkey
    rw [hevents] at hfields
    have hnone := congrFun hfields subkey
    exact Option.map_eq_none_iff.mp hnone.symm
  | cons p =>
    have hp : p ∈ slotEvents j k order := by rw [hevents]; exact List.mem_cons_self
    obtain ⟨v, hv, -⟩ := (hholds.mem_nested_iff hE horder j (hnested p hp)).mp hp
    rw [TwoMaps.shown_of_nested hk hv, if_neg (by simp)]

/-- The fields of a key with a plain entry. -/
theorem foldlM_of_plain (j : Json) (hagree : m.Agree j) (hk : m.keys.get? k = some s) :
    (slotEvents j k order).foldlM slotStep none = .ok (some (j.read s)) := by
  have hnodup := nodup_events horder j k
  obtain ⟨l, r, hlr⟩ := List.append_of_mem ((hholds.mem_plain_iff hE horder j).mpr ⟨s, hk, rfl⟩)
  rw [hlr, List.map_append, List.map_cons, List.nodup_append, List.nodup_cons] at hnodup
  have hl : ∀ p ∈ l, p.1 ≠ "_" := by
    intro p hp
    exact hnodup.2.2 p.1 (List.mem_map_of_mem hp) "_" List.mem_cons_self
  have hr : ∀ p ∈ r, p.1 ≠ "_" := by
    intro p hp hplain
    have hmem := List.mem_map_of_mem (f := Prod.fst) hp
    rw [hplain] at hmem
    exact hnodup.2.1.1 hmem
  have hobject : ∀ p ∈ r, ∃ fields : GoMap String Value,
      j.read s = .object fields ∧ fields.get? p.1 = some p.2 := by
    intro p hp
    have hmem : p ∈ slotEvents j k order := by rw [hlr]; simp [hp]
    obtain ⟨v, hv, hread⟩ := (hholds.mem_nested_iff hE horder j (hr p hp)).mp hmem
    obtain ⟨fields, hfields, hget⟩ := hagree k s hk p.1 v hv
    exact ⟨fields, hfields, by rw [← hread]; exact hget⟩
  -- The entries before the plain one are overwritten, and those after it are there already.
  rw [hlr, foldlM_slotStep_plain hl]
  cases r with
  | nil => rfl
  | cons p =>
    obtain ⟨fields, hfields, -⟩ := hobject p List.mem_cons_self
    rw [hfields, foldlM_slotStep_object hr, foldl_set_eq_self]
    intro q hq
    obtain ⟨fields', hfields', hget⟩ := hobject q hq
    have heq : fields = fields' := Value.object.inj (hfields.symm.trans hfields')
    rw [heq]
    exact hget

/-- The loop reads the whole state. -/
theorem getAll_eq (j : Json) (hagree : m.Agree j) :
    actorGetAllState j order = .ok (m.shown j) := by
  rw [getAll_eq_ok_iff j (hholds.cut_isSome horder)]
  intro k
  cases hk : m.keys.get? k with
  | none => exact hholds.foldlM_of_not_plain hE horder j hk
  | some =>
    rw [TwoMaps.shown_of_plain hk]
    exact hholds.foldlM_of_plain hE horder j hagree hk

end Holds

/-! ## Keys and subkeys -/

/-- An object is not one of its own fields. -/
theorem Value.not_own_field : ∀ {fields : String → Option Value} {k : String},
    v = .object fields → fields k ≠ some v := by
  refine @Value.rec (fun v => ∀ {fields : String → Option Value} {k : String}, v = .object fields →
    fields k ≠ some v) (fun o => ∀ v, o = some v → ∀ {fields : String → Option Value} {k : String},
    v = .object fields → fields k ≠ some v) ?_ ?_ ?_ ?_ ?_ v
  · intro fields k h
    exact absurd h (by simp)
  · intro text fields k h
    exact absurd h (by simp)
  · intro fields ih fields' k h hk
    have heq : fields = fields' := Value.object.inj h
    exact ih k (.object fields) (by rw [heq, hk, ← heq]) h hk
  · intro v h
    exact absurd h (by simp)
  · intro v ih w h
    cases h
    exact ih

theorem mapsAfter_put (t id : String) (e : Entry) (v : String) :
    mapsAfter t id [.update (e.put v)] = TwoMaps.empty.set e v := by
  simp [mapsAfter, after, TwoMaps.handle, Entry.removed_put, Entry.assigned_put,
    TwoMaps.deleteAll, TwoMaps.setAll]

theorem separate_set_empty (e : Entry) (v : String) : (TwoMaps.empty.set e v).Separate := by
  intro k s hs subkey
  cases e with
  | plain => rfl
  | nested => exact absurd hs (by simp [TwoMaps.set, TwoMaps.empty])

/-- The key of an entry that was set is shown. -/
theorem shown_set_empty_ne_none :
    ((TwoMaps.empty.set e v).shown j).get? e.key ≠ none := by
  cases e with
  | plain =>
    rw [TwoMaps.shown_of_plain (s := v) (by simp [TwoMaps.set, Entry.key])]
    simp
  | nested key subkey =>
    have hv : (TwoMaps.empty.set (.nested key subkey) v).pairs.get? (key, subkey) = some v := by
      simp [TwoMaps.set]
    rw [Entry.key, TwoMaps.shown_of_nested rfl hv]
    simp

/-- One entry was set: its field is the only one, and the loop takes it apart. -/
theorem slotEvents_put (j : Json) (t id : String) (e : Entry)
    (h : (rest, v) ∈ slotEvents j k (hashAfter t id [.update (e.put "null")]).pairs) :
    cutString '_' e.field = some (k, rest) ∧ v = j.read "null" := by
  obtain ⟨i, s, hmem, hcut, rfl⟩ := mem_slotEvents.mp h
  have hlookup : (hashAfter t id [.update (e.put "null")]).lookup i =
      if i = e.field then some "null" else none := (Entry.handle_put t id ∅ e "null").2 i
  rw [Hash.mem_pairs.mp hmem] at hlookup
  by_cases hi : i = e.field
  · rw [if_pos hi, Option.some.injEq] at hlookup
    exact ⟨hi ▸ hcut, by rw [hlookup]⟩
  · rw [if_neg hi] at hlookup
    exact absurd hlookup (by simp)

/-- The only field of a key that has one. -/
theorem slotEvents_put_eq (j : Json) (t id : String) {e : Entry}
    (h : cutString '_' e.field = some (k, rest)) :
    slotEvents j k (hashAfter t id [.update (e.put "null")]).pairs = [(rest, j.read "null")] := by
  have hnodup := nodup_slotEvents j k (hashAfter t id [.update (e.put "null")]).nodup_pairs
  have hall : ∀ p ∈ slotEvents j k (hashAfter t id [.update (e.put "null")]).pairs,
      p = (rest, j.read "null") := by
    intro p hp
    obtain ⟨hcut, hv⟩ := slotEvents_put j t id e hp
    rw [h, Option.some.injEq, Prod.mk.injEq] at hcut
    exact Prod.ext hcut.2.symm hv
  have hmem : (rest, j.read "null") ∈
      slotEvents j k (hashAfter t id [.update (e.put "null")]).pairs := by
    refine mem_slotEvents.mpr ⟨e.field, "null", Hash.mem_pairs.mpr ?_, h, rfl⟩
    exact ((Entry.handle_put t id ∅ e "null").2 e.field).trans (if_pos rfl)
  rw [← List.perm_singleton, List.perm_ext_iff_of_nodup (hnodup.of_map _) (List.nodup_singleton _)]
  intro p
  rw [List.mem_singleton]
  exact ⟨hall p, fun hp => hp ▸ hmem⟩

/-- **Reading the whole state.**  After every sequence of requests over the entries `E` that leaves no
key used both ways, and for every order of the fields, the whole state is returned, exactly if the
keys of `E` have no separator and no subkey is a separator alone. -/
theorem getAll_shows_iff_clean (j : Json) (t id : String) (E : Set Entry) :
    (∀ ops : List StateOp, (∀ op ∈ ops, op.Over E) → (mapsAfter t id ops).Separate →
      ∀ order : List (String × String), order.Perm (hashAfter t id ops).pairs →
        actorGetAllState j order = .ok ((mapsAfter t id ops).shown j)) ↔
      ∀ e ∈ E, e.Clean := by
  constructor
  · intro h e he
    -- One entry is set, and the hash has its field only.
    have hread := h [.update (e.put "null")]
      (by intro op hop; rw [List.mem_singleton.mp hop]; exact Entry.put_over he _)
      (by rw [mapsAfter_put]; exact separate_set_empty e _) _ (List.Perm.refl _)
    have hholds := (replies_eq (Set.injOn_singleton Entry.field e) t id [.update (e.put "null")]
      (by intro op hop; rw [List.mem_singleton.mp hop]; exact Entry.put_over (Set.mem_singleton e) _)).2
    rw [getAll_eq_ok_iff j (hholds.cut_isSome (List.Perm.refl _)), mapsAfter_put] at hread
    have hkey : '_' ∉ e.key.toList := by
      intro hsep
      have hnil : slotEvents j e.key (hashAfter t id [.update (e.put "null")]).pairs = [] := by
        refine List.eq_nil_iff_forall_not_mem.mpr fun p hp => ?_
        exact (cutString_eq_some separator_toList (slotEvents_put j t id e hp).1).1 hsep
      have hnone := hread e.key
      rw [hnil] at hnone
      exact shown_set_empty_ne_none (Except.ok.inj hnone).symm
    refine ⟨hkey, fun key subkey heq hsub => ?_⟩
    subst heq hsub
    have hcut : cutString '_' (Entry.nested key "_").field = some (key, "_") := by
      rw [Entry.field_eq]
      exact cutString_append_sep separator_toList hkey
    have hfold := hread key
    have hv : (TwoMaps.empty.set (.nested key "_") "null").pairs.get? (key, "_") = some "null" := by
      simp [TwoMaps.set]
    rw [slotEvents_put_eq j t id hcut, TwoMaps.shown_of_nested rfl hv] at hfold
    -- The value would be an object that is its own field.
    have hobject := Option.some.inj (Except.ok.inj hfold)
    have hfield : (fun subkey => ((TwoMaps.empty.set (.nested key "_") "null").pairs.get?
        (key, subkey)).map j.read) "_" = some (j.read "null") := by
      simp only [hv, Option.map_some]
    exact Value.not_own_field hobject hfield
  · intro hE ops hops hseparate order horder
    have hinj := injOn_field fun e he e' he' => Entry.clean_eq_of_clash (hE e he) (hE e' he')
    exact (replies_eq hinj t id ops hops).2.getAll_eq hE horder j (hseparate.agree j)

/-- A JSON text of these examples is a scalar, or the object with the field `x`. -/
private def sampleJson : Json where
  unmarshal s :=
    if s = "" then none
    else if s = "object" then some (.object (GoMap.empty.set "x" (.scalar "1")))
    else some (.scalar s)
  unmarshal_empty := rfl

/-- The entry `c` of the map `a_b` is shown as the entry `b_c` of a map `a`. -/
theorem separator_in_key_misread :
    (mapsAfter "T" "i" [.set "a_b" "c" "1"]).pairs.get? ("a_b", "c") = some "1" ∧
      (hashAfter "T" "i" [.set "a_b" "c" "1"]).pairs = [("a_b_c", "1")] ∧
      ∃ r fields, actorGetAllState sampleJson [("a_b_c", "1")] = .ok r ∧ r.get? "a_b" = none ∧
        r.get? "a" = some (.object fields) ∧ fields "b_c" = some (.scalar "1") :=
  ⟨by decide +kernel, by decide +kernel, _, _, rfl, rfl, rfl, rfl⟩

/-! ## Keys used both ways -/

/-- The key and the subkey have no separator. -/
def Entry.SeparatorFree (e : Entry) : Prop :=
  '_' ∉ e.key.toList ∧ ∀ key subkey, e = .nested key subkey → '_' ∉ subkey.toList

theorem Entry.SeparatorFree.clean {e : Entry} (h : e.SeparatorFree) : e.Clean := by
  refine ⟨h.1, fun key subkey heq hsub => h.2 key subkey heq ?_⟩
  rw [hsub]
  decide

/-- If the entries of a map leave a plain value as it is, it is an object that has them. -/
theorem object_of_foldlM (hl : ∀ p ∈ l, p.1 ≠ "_") (hnodup : (l.map Prod.fst).Nodup)
    (hfold : l.foldlM slotStep (some v) = .ok (some v)) (hp : p ∈ l) :
    ∃ fields, v = .object fields ∧ fields p.1 = some p.2 := by
  obtain ⟨q, r, rfl⟩ := List.exists_cons_of_ne_nil (List.ne_nil_of_mem hp)
  have hr : ∀ p ∈ r, p.1 ≠ "_" := fun p hp => hl p (List.mem_cons_of_mem q hp)
  cases v with
  | null =>
    rw [List.foldlM_cons, slotStep_null (hl q List.mem_cons_self)] at hfold
    have hobject := (foldlM_slotStep_object hr _).symm.trans hfold
    exact absurd (Option.some.inj (Except.ok.inj hobject)) (by simp)
  | scalar text =>
    obtain ⟨panic, hpanic⟩ := slotStep_scalar (hl q List.mem_cons_self)
    rw [List.foldlM_cons, hpanic] at hfold
    cases hfold
  | object fields =>
    refine ⟨fields, rfl, ?_⟩
    have hobject := (foldlM_slotStep_object hl fields).symm.trans hfold
    have hfields := Value.object.inj (Option.some.inj (Except.ok.inj hobject))
    have hget := GoMap.get?_foldl_set (q :: r) fields p.1
    rw [GoMap.get?_ofList_of_mem hnodup hp] at hget
    rw [← hfields]
    exact hget

/-- If the result does not depend on the order, the entries of the map `k` leave the plain value of
`k` as it is. -/
theorem Holds.foldlM_nested (hholds : Holds E h m) (hE : ∀ e ∈ E, e.Clean) {r : GoMap String Value}
    (hr : ∀ order : List (String × String), order.Perm h.pairs → actorGetAllState j order = .ok r)
    (hs : m.keys.get? k = some s) :
    ∃ l : List (String × Value), (∀ p ∈ l, p.1 ≠ "_") ∧ (l.map Prod.fst).Nodup ∧ l.foldlM slotStep
      (some (j.read s)) = .ok (some (j.read s)) ∧ ∀ subkey v, m.pairs.get? (k, subkey) = some v →
      (subkey, j.read v) ∈ l := by
  have hplain : ((Entry.plain k).field, s) ∈ h.pairs :=
    Hash.mem_pairs.mpr ((hholds.lookup_iff _ _).mpr ⟨.plain k, rfl, hs⟩)
  have hcut : cutString '_' (Entry.plain k).field = some (k, "_") := by
    rw [Entry.field_eq]
    exact cutString_append_sep separator_toList (hE _ (hholds.support (.plain k) s hs)).1
  -- The plain entry comes first, or it comes last.
  obtain ⟨rest, hfirst⟩ : ∃ rest, (((Entry.plain k).field, s) :: rest).Perm h.pairs :=
    ⟨_, (List.perm_cons_erase hplain).symm⟩
  have hlast : (rest ++ [((Entry.plain k).field, s)]).Perm h.pairs :=
    List.perm_append_comm.trans hfirst
  have hcons : slotEvents j k (((Entry.plain k).field, s) :: rest) =
      ("_", j.read s) :: slotEvents j k rest := by
    rw [slotEvents_cons j k hcut, if_pos rfl]
  have hsnoc : slotEvents j k (rest ++ [((Entry.plain k).field, s)]) =
      slotEvents j k rest ++ [("_", j.read s)] := by
    simp [slotEvents, restOf, hcut]
  have hnodup := nodup_events hfirst j k
  rw [hcons, List.map_cons, List.nodup_cons] at hnodup
  have hl : ∀ p ∈ slotEvents j k rest, p.1 ≠ "_" := by
    intro p hp hsub
    have hmem := List.mem_map_of_mem (f := Prod.fst) hp
    rw [hsub] at hmem
    exact hnodup.1 hmem
  refine ⟨slotEvents j k rest, hl, hnodup.2, ?_, fun subkey v hv => ?_⟩
  · have h₁ := (getAll_eq_ok_iff j (hholds.cut_isSome hfirst) r).mp (hr _ hfirst) k
    have h₂ := (getAll_eq_ok_iff j (hholds.cut_isSome hlast) r).mp (hr _ hlast) k
    rw [hcons, List.foldlM_cons, slotStep_plain] at h₁
    rw [hsnoc, foldlM_slotStep_plain hl] at h₂
    exact h₁.trans h₂.symm
  · have hsub : subkey ≠ "_" := (hE _ (hholds.support (.nested k subkey) v hv)).2 k subkey rfl
    have hmem := (hholds.mem_nested_iff hE hfirst j hsub).mpr ⟨v, hv, rfl⟩
    rw [hcons] at hmem
    rcases List.mem_cons.mp hmem with heq | hmem
    · exact absurd (congrArg Prod.fst heq) hsub
    · exact hmem

/-- **Order of the fields.**  In every state reached over entries without separators, the whole state
is returned without a panic and is the same for every order of the fields, exactly if the plain
value of a key that is also a map is an object that already has the entries of the map. -/
theorem getAll_total_iff_agree (j : Json) (t id : String) (ops : List StateOp)
    (hops : ∀ op ∈ ops, op.Over {e | e.SeparatorFree}) :
    (∃ r, ∀ order : List (String × String), order.Perm (hashAfter t id ops).pairs →
      actorGetAllState j order = .ok r) ↔ (mapsAfter t id ops).Agree j := by
  have hE : ∀ e ∈ {e : Entry | e.SeparatorFree}, e.Clean := fun e he => he.clean
  have hinj := injOn_field fun e he e' he' => Entry.clean_eq_of_clash (hE e he) (hE e' he')
  have hholds := (replies_eq hinj t id ops hops).2
  constructor
  · intro h k s hs subkey v hv
    obtain ⟨r, hr⟩ := h
    obtain ⟨l, hl, hnodup, hfold, hmem⟩ := hholds.foldlM_nested hE hr hs
    exact object_of_foldlM hl hnodup hfold (hmem subkey v hv)
  · intro hagree
    exact ⟨_, fun order horder => hholds.getAll_eq hE horder j hagree⟩

/-- The plain value of `a` is an object with the field `x`, and so is the map `a`. -/
theorem object_and_map_agree :
    ∃ r, ∀ order : List (String × String),
      order.Perm (hashAfter "T" "i" [.set "a" "" "object", .set "a" "x" "1"]).pairs →
        actorGetAllState sampleJson order = .ok r := by
  refine (getAll_total_iff_agree sampleJson "T" "i" [.set "a" "" "object", .set "a" "x" "1"]
    ?_).mpr ?_
  · simp [StateOp.Over, StateOp.entries, Entry.named, Entry.SeparatorFree, Entry.key]
  · intro k s hs subkey v hv
    simp [mapsAfter, after, TwoMaps.handle, Entry.named, TwoMaps.set, TwoMaps.empty,
      GoMap.get?_set] at hs hv
    obtain ⟨rfl, rfl⟩ := hs
    obtain ⟨⟨-, rfl⟩, rfl⟩ := hv
    exact ⟨_, rfl, rfl⟩

/-- The number `1` under `a` and the map `a`: one order panics, and the other one loses the map. -/
theorem number_and_map_panic :
    (hashAfter "T" "i" [.set "a" "" "1", .set "a" "x" "2"]).pairs = [("a_x", "2"), ("a__", "1")] ∧
      (∃ panic, actorGetAllState sampleJson [("a__", "1"), ("a_x", "2")] = .error panic) ∧
      ∃ r, actorGetAllState sampleJson [("a_x", "2"), ("a__", "1")] = .ok r ∧
        r.get? "a" = some (.scalar "1") :=
  ⟨by decide +kernel, ⟨_, rfl⟩, _, rfl, rfl⟩

end Kar.Runtime
