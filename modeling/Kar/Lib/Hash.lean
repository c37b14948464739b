import Mathlib
import Kar.Lib.GoMap

/-!
# Redis hashes

A hash is a finite map from fields to values.  `hset` and `hdel` are the commands that change
one: they take several fields at once and count the fields that they add or remove, each one once.
A command without fields is an error.

`Represents enc E h m` says that the hash `h` holds the map `m`, whose keys are written as fields by
`enc`.  As long as `enc` is injective on the keys in use, the two commands do to the map what they do
to the hash, with the same counts.
-/

namespace Kar.Lib

open List

/-- A hash: its fields are distinct. -/
abbrev Hash (κ ν : Type) : Type := AList fun _ : κ => ν

namespace Hash

/-- The fields and values, in some order. -/
def pairs (h : Hash κ ν) : List (κ × ν) := h.entries.map fun kv => (kv.1, kv.2)

theorem nodup_pairs (h : Hash κ ν) : (h.pairs.map Prod.fst).Nodup := by
  rw [pairs, map_map]
  exact h.nodupKeys

variable [DecidableEq κ]

theorem mem_pairs {h : Hash κ ν} {k : κ} {v : ν} : (k, v) ∈ h.pairs ↔ h.lookup k = some v := by
  rw [← Option.mem_def, AList.mem_lookup_iff]
  simp only [pairs, mem_map, Prod.mk.injEq]
  constructor
  · intro h
    obtain ⟨⟨k, v⟩, hmem, rfl, rfl⟩ := h
    exact hmem
  · intro h
    exact ⟨⟨k, v⟩, h, rfl, rfl⟩

/-! ## Commands -/

/-- `HSET`, with the number of fields that were added. -/
def hset (h : Hash κ ν) : List (κ × ν) → Hash κ ν × Nat
  | [] => (h, 0)
  | (k, v) :: l =>
    let r := hset (h.insert k v) l
    (r.1, r.2 + if k ∈ h then 0 else 1)

/-- The removal of several fields, with the number of fields that were removed. -/
def remove (h : Hash κ ν) : List κ → Hash κ ν × Nat
  | [] => (h, 0)
  | k :: ks =>
    let r := remove (h.erase k) ks
    (r.1, r.2 + if k ∈ h then 1 else 0)

/-- `HDEL`, which is an error without fields. -/
def hdel (h : Hash κ ν) (ks : List κ) : Option (Hash κ ν × Nat) :=
  if ks = [] then none else some (h.remove ks)

theorem lookup_hset (h : Hash κ ν) (l : List (κ × ν)) (k : κ) :
    (h.hset l).1.lookup k = ((GoMap.ofList l).get? k).or (h.lookup k) := by
  induction l generalizing h with
  | nil => rfl
  | cons p l ih =>
    obtain ⟨k', v⟩ := p
    rw [hset, ih, GoMap.get?_ofList_cons, Option.or_assoc]
    by_cases hk : k = k'
    · subst hk
      rw [AList.lookup_insert, if_pos rfl]
      rfl
    · rw [AList.lookup_insert_ne hk, if_neg hk]
      rfl

/-- `HSET` counts the fields that the hash does not have. -/
theorem hset_count (h : Hash κ ν) (l : List (κ × ν)) :
    (h.hset l).2 = ((l.map Prod.fst).toFinset.filter (· ∉ h)).card := by
  induction l generalizing h with
  | nil => rfl
  | cons p l ih =>
    obtain ⟨k, v⟩ := p
    rw [hset, ih, map_cons, toFinset_cons]
    simp only [AList.mem_insert, not_or]
    by_cases hk : k ∈ h
    · rw [if_pos hk, Nat.add_zero, Finset.filter_insert, if_neg (not_not.mpr hk)]
      refine congrArg Finset.card ?_
      refine Finset.filter_congr fun k' _ => ?_
      exact and_iff_right_of_imp fun hk' heq => hk' (heq ▸ hk)
    · rw [if_neg hk]
      have hinsert : (insert k (l.map Prod.fst).toFinset).filter (· ∉ h) =
          insert k ((l.map Prod.fst).toFinset.filter fun k' => k' ≠ k ∧ k' ∉ h) := by
        ext k'
        by_cases heq : k' = k <;> simp [heq, hk]
      rw [hinsert, Finset.card_insert_of_notMem (by simp)]

theorem lookup_remove (h : Hash κ ν) :
    (h.remove ks).1.lookup k = if k ∈ ks then none else h.lookup k := by
  induction ks generalizing h with
  | nil => simp [remove]
  | cons k' _ ih =>
    rw [remove, ih]
    by_cases hk : k = k'
    · subst hk
      simp
    · simp [AList.lookup_erase_ne hk, hk]

/-- `HDEL` counts the fields that the hash has. -/
theorem remove_count (h : Hash κ ν) (ks : List κ) :
    (h.remove ks).2 = (ks.toFinset.filter (· ∈ h)).card := by
  induction ks generalizing h with
  | nil => rfl
  | cons k ks ih =>
    rw [remove, ih, toFinset_cons]
    simp only [AList.mem_erase]
    by_cases hk : k ∈ h
    · rw [if_pos hk]
      have hinsert : (insert k ks.toFinset).filter (· ∈ h) =
          insert k (ks.toFinset.filter fun k' => k' ≠ k ∧ k' ∈ h) := by
        ext k'
        by_cases heq : k' = k <;> simp [heq, hk]
      rw [hinsert, Finset.card_insert_of_notMem (by simp)]
    · rw [if_neg hk, Nat.add_zero, Finset.filter_insert, if_neg hk]
      refine congrArg Finset.card ?_
      refine Finset.filter_congr fun k' _ => ?_
      exact and_iff_right_of_imp fun hk' heq => hk (heq ▸ hk')

/-- The hash with the given assignments: `HSET` on an empty hash. -/
def ofList (l : List (κ × ν)) : Hash κ ν := (hset ∅ l).1

theorem lookup_ofList (l : List (κ × ν)) (k : κ) :
    (ofList l).lookup k = (GoMap.ofList l).get? k := by
  rw [ofList, lookup_hset, AList.lookup_empty, Option.or_none]

theorem mem_iff_lookup {h : Hash κ ν} {k : κ} : k ∈ h ↔ ∃ v, h.lookup k = some v := by
  rw [← AList.lookup_isSome, Option.isSome_iff_exists]

/-- The assignments of the pairs of a hash, in any order. -/
theorem get?_ofList_pairs {h : Hash κ ν} {order : List (κ × ν)} (horder : order.Perm h.pairs)
    (k : κ) : (GoMap.ofList order).get? k = h.lookup k := by
  rw [GoMap.ofList_perm horder ((horder.map _).nodup_iff.mpr h.nodup_pairs)]
  cases hk : h.lookup k with
  | none =>
    refine GoMap.get?_ofList_eq_none fun hkeys => ?_
    obtain ⟨⟨k', v⟩, hmem, rfl⟩ := mem_map.mp hkeys
    exact absurd hk (by rw [mem_pairs.mp hmem]; simp)
  | some => exact GoMap.get?_ofList_of_mem h.nodup_pairs (mem_pairs.mpr hk)

theorem mem_map_fst_iff {k : κ} :
    k ∈ l.map Prod.fst ↔ (GoMap.ofList l).get? k ≠ none := by
  induction l with
  | nil => simp
  | cons p l ih =>
    rw [map_cons, mem_cons, ih, GoMap.get?_ofList_cons]
    by_cases hk : k = p.1 <;> simp [hk]

/-- The assignments may be collected in a map first, and written in any order. -/
theorem hset_collected (h : Hash κ ν) {l order : List (κ × ν)} (horder : order.Perm (ofList l).pairs) :
    (∀ k, (h.hset order).1.lookup k = (h.hset l).1.lookup k) ∧ (h.hset order).2 = (h.hset l).2 := by
  have hget : ∀ k, (GoMap.ofList order).get? k = (GoMap.ofList l).get? k := by
    intro k
    rw [get?_ofList_pairs horder, lookup_ofList]
  have hkeys : (order.map Prod.fst).toFinset = (l.map Prod.fst).toFinset := by
    ext k
    rw [mem_toFinset, mem_toFinset, mem_map_fst_iff, mem_map_fst_iff, hget]
  constructor
  · intro k
    rw [lookup_hset, lookup_hset, hget]
  · rw [hset_count, hset_count, hkeys]

end Hash

/-! ## Maps kept in a hash -/

section Represents

variable [DecidableEq κ]

/-- The hash holds the map, whose keys are in `E` and are written as fields by `enc`. -/
structure Represents (enc : ε → κ) (E : Set ε) (h : Hash κ ν) (m : GoMap ε ν) : Prop where
  support : ∀ e v, m.get? e = some v → e ∈ E
  lookup_iff : ∀ k v, h.lookup k = some v ↔ ∃ e, enc e = k ∧ m.get? e = some v

/-- Keys and their fields are counted alike. -/
theorem card_filter_image {s : Finset ε} (hinj : Set.InjOn enc s) (p : κ → Prop)
    [DecidablePred p] : ((s.image enc).filter p).card = (s.filter fun e => p (enc e)).card := by
  rw [Finset.filter_image, Finset.card_image_of_injOn]
  exact hinj.mono (Finset.coe_subset.mpr (Finset.filter_subset _ _))

namespace Represents

variable {h : Hash κ ν} {m : GoMap ε ν}

theorem empty : Represents enc E (∅ : Hash κ ν) GoMap.empty where
  support := by simp
  lookup_iff := by simp

/-- A hash with the same values holds the same map. -/
theorem congr (hrep : Represents enc E h m) (heq : ∀ k, h'.lookup k = h.lookup k) :
    Represents enc E h' m :=
  ⟨hrep.support, fun k v => by rw [heq, hrep.lookup_iff]⟩

/-- A key in use is read from its field. -/
theorem lookup_enc (hrep : Represents enc E h m) (hinj : Set.InjOn enc E) (he : e ∈ E) :
    h.lookup (enc e) = m.get? e := by
  refine Option.ext fun v => ?_
  rw [hrep.lookup_iff]
  constructor
  · intro hv
    obtain ⟨e', heq, hv⟩ := hv
    rwa [hinj (hrep.support e' v hv) he heq] at hv
  · intro hv
    exact ⟨e, rfl, hv⟩

theorem mem_enc (hrep : Represents enc E h m) (hinj : Set.InjOn enc E) (he : e ∈ E) :
    enc e ∈ h ↔ (m.get? e).isSome := by
  rw [← AList.lookup_isSome, hrep.lookup_enc hinj he]

variable [DecidableEq ε]

/-- A change of one field changes the key in use that is written to it. -/
theorem change (hrep : Represents enc E h m) (hinj : Set.InjOn enc E) (he : e ∈ E)
    (hself : h'.lookup (enc e) = o) (hother : ∀ k ≠ enc e, h'.lookup k = h.lookup k)
    (hget : ∀ e', m'.get? e' = if e' = e then o else m.get? e') : Represents enc E h' m' := by
  constructor
  · intro e' v hv
    by_cases heq : e' = e
    · rwa [heq]
    · rw [hget, if_neg heq] at hv
      exact hrep.support e' v hv
  intro k v
  simp only [hget]
  by_cases hk : k = enc e
  · rw [hk, hself]
    constructor
    · intro hv
      exact ⟨e, rfl, by rw [if_pos rfl]; exact hv⟩
    intro hv
    obtain ⟨e', heq, hv⟩ := hv
    by_cases hee : e' = e
    · rwa [if_pos hee] at hv
    · rw [if_neg hee] at hv
      exact absurd (hinj (hrep.support e' v hv) he heq) hee
  · rw [hother k hk, hrep.lookup_iff]
    refine exists_congr fun e' => and_congr_right fun heq => ?_
    rw [if_neg]
    intro hee
    exact hk (by rw [← heq, hee])

theorem insert (hrep : Represents enc E h m) (hinj : Set.InjOn enc E) (he : e ∈ E) (v : ν) :
    Represents enc E (AList.insert (enc e) v h) (m.set e v) :=
  hrep.change hinj he (AList.lookup_insert h) (fun _ => AList.lookup_insert_ne)
    fun e' => GoMap.get?_set m e e' v

theorem erase (hrep : Represents enc E h m) (hinj : Set.InjOn enc E) (he : e ∈ E) :
    Represents enc E (AList.erase (enc e) h) (m.delete e) :=
  hrep.change hinj he (AList.lookup_erase _ h) (fun _ => AList.lookup_erase_ne)
    (GoMap.get?_delete m e)

/-- `HSET` on the fields of keys in use sets the keys. -/
theorem hset (hrep : Represents enc E h m) (hinj : Set.InjOn enc E) {l : List (ε × ν)}
    (hl : ∀ p ∈ l, p.1 ∈ E) :
    Represents enc E (h.hset (l.map fun p => (enc p.1, p.2))).1
      (l.foldl (fun m p => m.set p.1 p.2) m) := by
  induction l generalizing h m with
  | nil => exact hrep
  | cons p l ih =>
    exact ih (hrep.insert hinj (hl p mem_cons_self) p.2) fun q hq => hl q (mem_cons_of_mem _ hq)

theorem hset_count (hrep : Represents enc E h m) (hinj : Set.InjOn enc E) {l : List (ε × ν)}
    (hl : ∀ p ∈ l, p.1 ∈ E) :
    (h.hset (l.map fun p => (enc p.1, p.2))).2 =
      ((l.map Prod.fst).toFinset.filter fun e => m.get? e = none).card := by
  have hmem : ∀ e ∈ (l.map Prod.fst).toFinset, e ∈ E := by
    intro e he
    obtain ⟨p, hp, rfl⟩ := mem_map.mp (mem_toFinset.mp he)
    exact hl p hp
  have himage : ((l.map fun p => (enc p.1, p.2)).map Prod.fst).toFinset =
      (l.map Prod.fst).toFinset.image enc := by
    ext k
    simp
  rw [Hash.hset_count, himage, card_filter_image (hinj.mono hmem)]
  refine congrArg Finset.card ?_
  refine Finset.filter_congr fun e he => ?_
  rw [hrep.mem_enc hinj (hmem e he)]
  simp

/-- The removal of the fields of keys in use deletes the keys. -/
theorem remove (hrep : Represents enc E h m) (hinj : Set.InjOn enc E) {l : List ε} (hl : ∀ e ∈ l, e ∈ E) :
    Represents enc E (h.remove (l.map enc)).1 (l.foldl GoMap.delete m) := by
  induction l generalizing h m with
  | nil => exact hrep
  | cons e l ih =>
    exact ih (hrep.erase hinj (hl e mem_cons_self)) fun e' he' => hl e' (mem_cons_of_mem _ he')

theorem remove_count (hrep : Represents enc E h m) (hinj : Set.InjOn enc E) {l : List ε}
    (hl : ∀ e ∈ l, e ∈ E) :
    (h.remove (l.map enc)).2 = (l.toFinset.filter fun e => (m.get? e).isSome).card := by
  have himage : (l.map enc).toFinset = l.toFinset.image enc := by
    ext k
    simp
  have hmem : ∀ e ∈ l.toFinset, e ∈ E := fun e he => hl e (mem_toFinset.mp he)
  rw [Hash.remove_count, himage, card_filter_image (hinj.mono hmem)]
  refine congrArg Finset.card ?_
  exact Finset.filter_congr fun e he => hrep.mem_enc hinj (hmem e he)

end Represents

end Represents

end Kar.Lib
