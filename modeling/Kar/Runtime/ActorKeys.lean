import Kar.Runtime.Application
import Kar.Runtime.Submaps

/-!
# The keys of actors

An actor has two keys in the store, one for its state (`stateKey`) and one for its placement (`place`).
Both join the type and the id of the actor with separators.  Two actors share their keys if one type
extends the other one by a separator and the ids make up for it (`ActorClash`); otherwise no operation
on one of them reads or writes the keys of the other one.

`getAllSessions` of `core/pkg/rpc/query.go` goes the other way: it lists the keys of the placements and
takes each one apart at every separator.  It returns the placed actors exactly if the keys that it
finds are those of actors of the wanted type, with no separator in their types and ids.
-/

namespace Kar.Runtime

open Kar.Lib Kar.Store List

/-! ## Operations on an actor -/

/-- The operations on the state and on the placement of an actor. -/
inductive ActorOp where
  | entry (op : StateOp)
  | submap (op : Option String) (mapName : String) (replies : List ScanReply)
  | getAll
  /-- The deletion of the state, also by the deletion of the actor. -/
  | delAll
  /-- `getSessionNodeID` -/
  | nodeID
  /-- One `CAS` of `routeToSession`. -/
  | place (expected desired : String)
  | delSession

inductive ActorReply where
  | http (r : Except String Reply)
  | submap (r : Except String SubmapReply)
  | state (r : Except String (GoMap String Value))
  | node (r : Except String String)
  | deleted (n : Nat)

/-- The key of the state in the database of an application. -/
def stateOf (app t id : String) : String := mangleKey app (stateKey t id)

/-- The key of the placement in the database of an application. -/
def placementOf (app t id : String) : String := mangleKey app (Rpc.place t id)

def ActorOp.run (j : Json) (app t id : String) (db : Db) : ActorOp → Db × ActorReply
  | .entry op =>
    let r := db.onHash (stateOf app t id) fun h => op.handle t id h
    (r.1, .http r.2)
  | .submap op mapName replies =>
    let r := db.onHash (stateOf app t id) fun h => routeImplSubmapOps j op mapName replies h
    (r.1, .submap r.2)
  | .getAll =>
    (db, .state (db.onHash (stateOf app t id) fun h => (h, actorGetAllState j h.pairs)).2)
  | .delAll =>
    let r := db.delKey (stateOf app t id)
    (r.1, .deleted r.2)
  | .nodeID => (db, .node ((db.getText (placementOf app t id)).map fun node => node.getD ""))
  | .place expected desired =>
    let r := db.casText (placementOf app t id) expected desired
    (r.1, .node r.2)
  | .delSession =>
    let r := db.delKey (placementOf app t id)
    (r.1, .deleted r.2)

variable {app id t id' t' filter : String}

/-- An operation changes the two keys of its actor only. -/
theorem ActorOp.lookup_run (j : Json) (db : Db) (op : ActorOp)
    (hstate : key ≠ stateOf app t id) (hplace : key ≠ placementOf app t id) :
    (op.run j app t id db).1.lookup key = db.lookup key := by
  cases op with
  | entry => exact Db.lookup_onHash_of_ne hstate _
  | submap => exact Db.lookup_onHash_of_ne hstate _
  | getAll => rfl
  | delAll => exact Db.lookup_delKey_of_ne hstate
  | nodeID => rfl
  | place expected desired => exact Db.lookup_casText_of_ne hplace expected desired
  | delSession => exact Db.lookup_delKey_of_ne hplace

/-- The reply to an operation depends on the two keys of its actor only. -/
theorem ActorOp.reply_run (j : Json) (op : ActorOp)
    (hstate : db.lookup (stateOf app t id) = db'.lookup (stateOf app t id))
    (hplace : db.lookup (placementOf app t id) = db'.lookup (placementOf app t id)) :
    (op.run j app t id db).2 = (op.run j app t id db').2 := by
  cases op with
  | entry => exact congrArg ActorReply.http (Db.reply_onHash hstate _)
  | submap => exact congrArg ActorReply.submap (Db.reply_onHash hstate _)
  | getAll => exact congrArg ActorReply.state (Db.reply_onHash hstate _)
  | delAll => exact congrArg ActorReply.deleted (Db.reply_delKey hstate)
  | nodeID => rw [ActorOp.run, ActorOp.run, Db.getText_congr hplace]
  | place expected desired =>
    exact congrArg ActorReply.node (Db.reply_casText hplace expected desired)
  | delSession => exact congrArg ActorReply.deleted (Db.reply_delKey hplace)

/-! ## Two actors -/

/-- The types and ids make up the same key, although they differ. -/
def ActorClash (t id t' id' : String) : Prop :=
  (∃ x, t' = t ++ "_" ++ x ∧ id = x ++ "_" ++ id') ∨ ∃ x, t = t' ++ "_" ++ x ∧ id' = x ++ "_" ++ id

theorem stateKey_inj_iff :
    stateKey t id = stateKey t' id' ↔ (t = t' ∧ id = id') ∨ ActorClash t id t' id' := by
  have hkey : ∀ t id, stateKey t id = "main" ++ "_" ++ "state" ++ "_" ++ (t ++ "_" ++ id) := by
    intro t id
    simp [stateKey, String.append_assoc]
  rw [hkey, hkey, String.append_right_inj, string_append_sep_inj_iff separator_toList]
  rfl

theorem place_inj_iff :
    Rpc.place t id = Rpc.place t' id' ↔ (t = t' ∧ id = id') ∨ ActorClash t id t' id' := by
  have hkey : ∀ t id, Rpc.place t id = "rpc" ++ "_" ++ (t ++ "_" ++ id) := by
    intro t id
    simp [Rpc.place, String.append_assoc]
  rw [hkey, hkey, String.append_right_inj, string_append_sep_inj_iff separator_toList]
  rfl

theorem stateKey_ne_place (t id t' id' : String) : stateKey t id ≠ Rpc.place t' id' := by
  intro h
  have hlist := congrArg String.toList h
  simp [stateKey, Rpc.place] at hlist

/-- No operation on the first actor writes or reads the keys of the second one. -/
structure Independent (app t id t' id' : String) : Prop where
  writes : ∀ (j : Json) (op : ActorOp) (db : Db),
    (op.run j app t id db).1.lookup (stateOf app t' id') = db.lookup (stateOf app t' id') ∧
      (op.run j app t id db).1.lookup (placementOf app t' id') = db.lookup (placementOf app t' id')
  reads : ∀ (j : Json) (op : ActorOp) (db db' : Db),
    (∀ key, key ≠ stateOf app t' id' → key ≠ placementOf app t' id' →
      db.lookup key = db'.lookup key) → (op.run j app t id db).2 = (op.run j app t id db').2

/-- Different actors are independent exactly if their names do not clash. -/
theorem independent_iff (hne : (t, id) ≠ (t', id')) :
    Independent app t id t' id' ↔ ¬ ActorClash t id t' id' := by
  have hnames : ¬ (t = t' ∧ id = id') := fun h => hne (by rw [h.1, h.2])
  constructor
  · intro h hclash
    -- To place the first actor is to place the second one.
    have hkey : placementOf app t' id' = placementOf app t id :=
      congrArg (mangleKey app) (place_inj_iff.mpr (.inr hclash)).symm
    have hplace := (h.writes ⟨fun _ => none, rfl⟩ (.place "" "node") ∅).2
    rw [hkey] at hplace
    have hwritten : ((ActorOp.place "" "node").run ⟨fun _ => none, rfl⟩ app t id ∅).1.lookup
        (placementOf app t id) = some (.text "node") := AList.lookup_insert _
    rw [hwritten] at hplace
    exact absurd hplace (by simp)
  · intro hclash
    have hstate : stateOf app t' id' ≠ stateOf app t id := by
      intro h
      rcases stateKey_inj_iff.mp (mangleKey_injective app h).symm with h | h
      · exact hnames h
      · exact hclash h
    have hplace : placementOf app t' id' ≠ placementOf app t id := by
      intro h
      rcases place_inj_iff.mp (mangleKey_injective app h).symm with h | h
      · exact hnames h
      · exact hclash h
    have hcross : ∀ t id t' id', stateOf app t id ≠ placementOf app t' id' :=
      fun t id t' id' h => stateKey_ne_place t id t' id' (mangleKey_injective app h)
    constructor
    · intro j op db
      exact ⟨op.lookup_run j db hstate (hcross t' id' t id),
        op.lookup_run j db (hcross t id t' id').symm hplace⟩
    · intro j op db db' hdb
      exact op.reply_run j (hdb _ hstate.symm (hcross t id t' id'))
        (hdb _ (hcross t' id' t id).symm hplace.symm)

/-! ## The list of the placed actors -/

/-- `instance(key)`, with an index out of range as a panic. -/
def instanceOf (key : String) : Except String (String × String) :=
  match splitString '_' key with
  | _ :: part₁ :: part₂ :: _ => .ok (part₁, part₂)
  | parts => .error ("index out of range [2] with length " ++ toString parts.length)

/-- The pattern of `getAllSessions`. -/
def sessionPattern (sessionPrefixFilter : String) : String :=
  if sessionPrefixFilter ≠ "" then Rpc.place sessionPrefixFilter "*" else "rpc" ++ "_" ++ "*"

/-- `m[actorType] = append(m[actorType], instanceID)` -/
def addSession (m : GoMap String (List String)) (p : String × String) : GoMap String (List String) :=
  m.set p.1 (m.getD p.1 [] ++ [p.2])

/-- `getAllSessions`, with the reply of `KEYS` to the pattern. -/
def getAllSessions (sc : StoreConfig) (reply : List String) :
    Except String (GoMap String (List String)) := do
  let keys ← keys sc reply
  keys.foldlM (fun m key => (instanceOf key).map (addSession m)) GoMap.empty

/-- The map lists the pairs, in any order and each one as often as it occurs. -/
def Lists (m : GoMap String (List String)) (l : List (String × String)) : Prop :=
  ∀ t, ∃ ids, ids.Perm ((l.filter fun p => p.1 = t).map Prod.snd) ∧
    m.get? t = if ids = [] then none else some ids

/-- What the loop collects. -/
theorem get?_foldl_addSession (l : List (String × String)) (m : GoMap String (List String)) (t : String) :
    (l.foldl addSession m).get? t = if (l.filter fun p => p.1 = t) = [] then m.get? t else some
      (m.getD t [] ++ (l.filter fun p => p.1 = t).map Prod.snd) := by
  induction l generalizing m with
  | nil => rfl
  | cons p l ih =>
    rw [foldl_cons, ih]
    by_cases hp : p.1 = t
    · have hself : (addSession m p).get? t = some (m.getD t [] ++ [p.2]) := by
        rw [← hp]
        exact GoMap.get?_set_self _ _ _
      have hgetD : (addSession m p).getD t [] = m.getD t [] ++ [p.2] := by
        rw [GoMap.getD_eq, hself, Option.getD_some]
      rw [filter_cons_of_pos (by simpa using hp), if_neg (cons_ne_nil p _), hself, hgetD]
      split
      · rename_i hnil
        simp [hnil]
      · simp
    · have hother : (addSession m p).get? t = m.get? t := GoMap.get?_set_of_ne m (Ne.symm hp) _
      have hgetD : (addSession m p).getD t [] = m.getD t [] := by
        rw [GoMap.getD_eq, GoMap.getD_eq, hother]
      rw [filter_cons_of_neg (by simpa using hp), hother, hgetD]

theorem lists_foldl (l : List (String × String)) : Lists (l.foldl addSession GoMap.empty) l := by
  intro t
  refine ⟨_, List.Perm.refl _, ?_⟩
  rw [get?_foldl_addSession]
  simp only [map_eq_nil_iff]
  rfl

/-- The pairs of one type are counted in the list of its ids. -/
theorem count_ids (l : List (String × String)) (t i : String) :
    ((l.filter fun p => p.1 = t).map Prod.snd).count i = l.count (t, i) := by
  induction l with
  | nil => rfl
  | cons p l ih =>
    obtain ⟨t', i'⟩ := p
    by_cases ht : t' = t
    · subst ht
      rw [filter_cons_of_pos (by simp), map_cons, count_cons, count_cons, ih]
      simp
    · rw [filter_cons_of_neg (by simpa using ht), ih, count_cons_of_ne]
      simp [ht]

/-- A map lists one collection of pairs. -/
theorem Lists.perm (h : Lists m l) (h' : Lists m l') : l.Perm l' := by
  rw [perm_iff_count]
  intro p
  obtain ⟨t, i⟩ := p
  obtain ⟨ids, hids, hm⟩ := h t
  obtain ⟨ids', hids', hm'⟩ := h' t
  have heq : ids = ids' := by
    rw [hm] at hm'
    by_cases hnil : ids = [] <;> by_cases hnil' : ids' = [] <;> simp_all
  rw [← count_ids, ← count_ids, ← hids.count_eq, ← hids'.count_eq, heq]

theorem Lists.congr (h : Lists m l) (hperm : l.Perm l') : Lists m l' := by
  intro t
  obtain ⟨ids, hids, hm⟩ := h t
  exact ⟨ids, hids.trans ((hperm.filter _).map _), hm⟩

/-- The type and the id have no separator. -/
def SepFree (a : String × String) : Prop := '_' ∉ a.1.toList ∧ '_' ∉ a.2.toList

instance (a : String × String) : Decidable (SepFree a) := inferInstanceAs (Decidable (_ ∧ _))

/-- What `instance` reads, where it does not panic. -/
def sessionOf (key : String) : String × String := (instanceOf key).toOption.getD ("", "")

/-- The key of a placement is taken apart at every separator, without a panic. -/
theorem instanceOf_place :
    instanceOf (Rpc.place t id) = .ok (sessionOf (Rpc.place t id)) ∧
      SepFree (sessionOf (Rpc.place t id)) := by
  have hrpc : splitString '_' "rpc" = ["rpc"] := splitString_of_notMem (by decide)
  have hsplit : splitString '_' (Rpc.place t id) =
      "rpc" :: (splitString '_' t ++ splitString '_' id) := by
    rw [Rpc.place, splitString_append_sep separator_toList, splitString_append_sep separator_toList,
      hrpc, append_assoc, singleton_append]
  obtain ⟨p₁, p₂, ps, hparts⟩ : ∃ p₁ p₂ ps,
      splitString '_' t ++ splitString '_' id = p₁ :: p₂ :: ps := by
    obtain ⟨p, ps, hp⟩ := splitString_eq_cons '_' t
    obtain ⟨q, qs, hq⟩ := splitString_eq_cons '_' id
    rw [hp, hq]
    cases ps with
    | nil => exact ⟨p, q, qs, rfl⟩
    | cons p' ps => exact ⟨p, p', ps ++ q :: qs, rfl⟩
  have hpiece : ∀ p ∈ p₁ :: p₂ :: ps, '_' ∉ p.toList := by
    intro p hp
    rw [← hparts, mem_append] at hp
    rcases hp with hp | hp
    · exact notMem_of_mem_splitString hp
    · exact notMem_of_mem_splitString hp
  have hread : instanceOf (Rpc.place t id) = .ok (p₁, p₂) := by
    rw [instanceOf, hsplit, hparts]
  rw [sessionOf, hread]
  exact ⟨rfl, hpiece p₁ (by simp), hpiece p₂ (by simp)⟩

/-- Without separators, `instance` undoes `place`. -/
theorem sessionOf_place (ha : SepFree a) :
    sessionOf (Rpc.place a.1 a.2) = a := by
  have hrpc : splitString '_' "rpc" = ["rpc"] := splitString_of_notMem (by decide)
  rw [sessionOf, instanceOf, Rpc.place, splitString_append_sep separator_toList,
    splitString_append_sep separator_toList, hrpc, splitString_of_notMem ha.1,
    splitString_of_notMem ha.2]
  rfl

/-- An actor without separators shares its key with no other actor. -/
theorem SepFree.place_inj (ha : SepFree a) (h : Rpc.place a.1 a.2 = Rpc.place b.1 b.2) : a = b := by
  rcases place_inj_iff.mp h with ⟨h₁, h₂⟩ | ⟨x, -, h₂⟩ | ⟨x, h₁, -⟩
  · exact Prod.ext h₁ h₂
  · exact absurd (by rw [h₂]; simp) ha.2
  · exact absurd (by rw [h₁]; simp) ha.1

/-- The loop of `getAllSessions` over keys that `instance` reads. -/
theorem foldlM_instanceOf {ks : List String}
    (hks : ∀ k ∈ ks, instanceOf k = .ok (sessionOf k)) (m : GoMap String (List String)) :
    ks.foldlM (fun m key => (instanceOf key).map (addSession m)) m =
      .ok ((ks.map sessionOf).foldl addSession m) := by
  induction ks generalizing m with
  | nil => rfl
  | cons k _ ih =>
    rw [foldlM_cons, hks k mem_cons_self]
    exact ih (fun k' hk' => hks k' (mem_cons_of_mem k hk')) _

/-! ## The placed actors -/

/-- The actors that are placed: those whose placement is in the database. -/
structure Placed (app : String) (db : Db) (actors : List (String × String)) : Prop where
  nodup : actors.Nodup
  stored : ∀ a ∈ actors, placementOf app a.1 a.2 ∈ db
  only : ∀ key, mangleKey app ("rpc" ++ "_" ++ key) ∈ db →
    ∃ a ∈ actors, Rpc.place a.1 a.2 = "rpc" ++ "_" ++ key

/-- The actors that a filter asks for. -/
def Wanted (sessionPrefixFilter : String) (a : String × String) : Prop :=
  sessionPrefixFilter = "" ∨ a.1 = sessionPrefixFilter

instance (filter : String) (a : String × String) : Decidable (Wanted filter a) :=
  inferInstanceAs (Decidable (_ ∨ _))

/-- The actors whose keys begin like those of the type that a filter names. -/
def Selected (sessionPrefixFilter : String) (a : String × String) : Prop :=
  Wanted sessionPrefixFilter a ∨ (∃ x, a.1 = sessionPrefixFilter ++ "_" ++ x) ∨
    ∃ x r, sessionPrefixFilter = a.1 ++ "_" ++ x ∧ a.2 = x ++ "_" ++ r

/-- What the pattern matches. -/
theorem glob_sessionPattern_iff (hfilter : Glob.Literal filter) :
    Glob.glob (sessionPattern filter) key = true ↔
      ∃ r, key = "rpc" ++ "_" ++ ((if filter = "" then "" else filter ++ "_") ++ r) := by
  have hrpc : Glob.Literal ("rpc" ++ "_") := by simp [Glob.Literal, Glob.specials]
  have hsep : Glob.Literal "_" := by simp [Glob.Literal, Glob.specials]
  rw [sessionPattern]
  by_cases hnil : filter = ""
  · rw [if_neg (by simpa using hnil), if_pos hnil, Glob.glob_star_iff hrpc]
    simp
  have hname : Glob.Literal ("rpc" ++ "_" ++ filter ++ "_") := by
    simp only [Glob.literal_append] at hrpc ⊢
    exact ⟨⟨hrpc, hfilter⟩, hsep⟩
  rw [if_pos hnil, if_neg hnil, Rpc.place, Glob.glob_star_iff hname]
  simp [String.append_assoc]

/-- The pattern finds the actors whose keys begin like those of the type. -/
theorem glob_place_iff (hfilter : Glob.Literal filter) :
    Glob.glob (sessionPattern filter) (Rpc.place a.1 a.2) = true ↔ Selected filter a := by
  have hkey : Rpc.place a.1 a.2 = "rpc" ++ "_" ++ (a.1 ++ "_" ++ a.2) := by
    simp [Rpc.place, String.append_assoc]
  rw [glob_sessionPattern_iff hfilter, hkey, Selected, Wanted]
  by_cases hnil : filter = ""
  · simp [hnil]
  · simp only [if_neg hnil, String.append_right_inj]
    rw [string_append_sep_prefix_iff separator_toList, or_iff_right hnil]

/-- The keys that `getAllSessions` goes through. -/
theorem Placed.mem_keys_iff (hplaced : Placed app db actors) (hfilter : Glob.Literal filter) :
    mangleKey app key ∈ db ∧ Glob.glob (sessionPattern filter) key = true ↔
      ∃ a ∈ actors, Rpc.place a.1 a.2 = key ∧ Selected filter a := by
  constructor
  · intro h
    obtain ⟨r, hr⟩ := (glob_sessionPattern_iff hfilter).mp h.2
    obtain ⟨a, ha, hkey⟩ := hplaced.only _ (hr ▸ h.1)
    rw [← hr] at hkey
    exact ⟨a, ha, hkey, (glob_place_iff hfilter).mp (hkey.symm ▸ h.2)⟩
  · intro h
    obtain ⟨a, ha, rfl, hsel⟩ := h
    exact ⟨hplaced.stored a ha, (glob_place_iff hfilter).mpr hsel⟩

/-- The keys of actors without separators are different. -/
theorem nodup_map_place {actors : List (String × String)} (hnodup : actors.Nodup)
    (hfree : ∀ a ∈ actors, SepFree a) : (actors.map fun a => Rpc.place a.1 a.2).Nodup :=
  hnodup.map_on fun a ha _ _ h => (hfree a ha).place_inj h

section Listing

variable {actors : List (String × String)} {filter : String} {ks : List String}

/-- What is read from the keys, without separators. -/
theorem instanceOf_of_mem_keys
    (hmem : ∀ k, k ∈ ks ↔ ∃ a ∈ actors, Rpc.place a.1 a.2 = k ∧ Selected filter a)
    (hk : k ∈ ks) : instanceOf k = .ok (sessionOf k) ∧ SepFree (sessionOf k) := by
  obtain ⟨a, -, rfl, -⟩ := (hmem k).mp hk
  exact instanceOf_place

/-- If the pairs that are read are the wanted actors, every selected actor is a wanted one. -/
theorem selected_of_perm (hactors : actors.Nodup)
    (hmem : ∀ k, k ∈ ks ↔ ∃ a ∈ actors, Rpc.place a.1 a.2 = k ∧ Selected filter a)
    (hperm : (ks.map sessionOf).Perm (actors.filter fun a => Wanted filter a)) :
    ∀ a ∈ actors, Selected filter a → Wanted filter a ∧ SepFree a := by
  intro a ha hsel
  have hfree : ∀ b ∈ actors.filter (fun b => Wanted filter b), SepFree b := by
    intro b hb
    obtain ⟨k, hk, rfl⟩ := mem_map.mp (hperm.mem_iff.mpr hb)
    exact (instanceOf_of_mem_keys hmem hk).2
  -- There are as many keys as wanted actors, and each wanted actor has one.
  have hsub : (actors.filter fun b => Wanted filter b).map (fun b => Rpc.place b.1 b.2) ⊆ ks := by
    intro k hk
    obtain ⟨b, hb, rfl⟩ := mem_map.mp hk
    obtain ⟨hb, hwanted⟩ := mem_filter.mp hb
    exact (hmem _).mpr ⟨b, hb, rfl, .inl (by simpa using hwanted)⟩
  have hlen : ks.length ≤
      ((actors.filter fun b => Wanted filter b).map fun b => Rpc.place b.1 b.2).length := by
    rw [length_map, ← hperm.length_eq, length_map]
  have hall := (subperm_of_subset (nodup_map_place (hactors.filter _) hfree)
    hsub).perm_of_length_le hlen
  obtain ⟨b, hb, hkey⟩ := mem_map.mp (hall.mem_iff.mpr ((hmem _).mpr ⟨a, ha, rfl, hsel⟩))
  rw [← (hfree b hb).place_inj hkey]
  exact ⟨by simpa using (mem_filter.mp hb).2, hfree b hb⟩

/-- If the selected actors are wanted and have no separators, they are read from the keys. -/
theorem perm_of_selected (hactors : actors.Nodup) (hks : ks.Nodup)
    (hmem : ∀ k, k ∈ ks ↔ ∃ a ∈ actors, Rpc.place a.1 a.2 = k ∧ Selected filter a)
    (h : ∀ a ∈ actors, Selected filter a → Wanted filter a ∧ SepFree a) :
    (ks.map sessionOf).Perm (actors.filter fun a => Wanted filter a) := by
  have hfree : ∀ a ∈ actors.filter (fun a => Wanted filter a), SepFree a := by
    intro a ha
    obtain ⟨ha, hwanted⟩ := mem_filter.mp ha
    exact (h a ha (.inl (by simpa using hwanted))).2
  have hall : ks.Perm ((actors.filter fun a => Wanted filter a).map fun a => Rpc.place a.1 a.2) := by
    rw [perm_ext_iff_of_nodup hks (nodup_map_place (hactors.filter _) hfree)]
    intro k
    simp only [hmem, mem_map, mem_filter, decide_eq_true_eq]
    constructor
    · intro hk
      obtain ⟨a, ha, hkey, hsel⟩ := hk
      exact ⟨a, ⟨ha, (h a ha hsel).1⟩, hkey⟩
    · intro hk
      obtain ⟨a, ⟨ha, hwanted⟩, hkey⟩ := hk
      exact ⟨a, ha, hkey, .inl hwanted⟩
  refine (hall.map sessionOf).trans ?_
  rw [map_map, Function.comp_def, map_congr_left fun a ha => sessionOf_place (hfree a ha), map_id']

/-- `getAllSessions` returns the placed actors that a filter asks for exactly if the actors that its
pattern selects are of the wanted type and have no separators. -/
theorem getAllSessions_iff {reply : List String} (happ : '_' ∉ app.toList)
    (hname : Glob.Literal app) (hfilter : Glob.Literal filter) (hplaced : Placed app db actors)
    (hreply : KeysReply db (mangleKey app (sessionPattern filter)) reply) :
    (∃ m, getAllSessions (redisConfig app) reply = .ok m ∧ Lists m (actors.filter fun a => Wanted
        filter a)) ↔ ∀ a ∈ actors, Selected filter a → Wanted filter a ∧ SepFree a := by
  obtain ⟨ks, hkeys, -, hnodup, hmem⟩ := keys_of_reply happ hname hreply
  simp only [hplaced.mem_keys_iff hfilter] at hmem
  have hresult : getAllSessions (redisConfig app) reply =
      .ok ((ks.map sessionOf).foldl addSession GoMap.empty) := by
    rw [getAllSessions, hkeys]
    exact foldlM_instanceOf (fun k hk => (instanceOf_of_mem_keys hmem hk).1) _
  constructor
  · intro h
    obtain ⟨m, hm, hlists⟩ := h
    rw [hresult, Except.ok.injEq] at hm
    subst hm
    exact selected_of_perm hplaced.nodup hmem ((lists_foldl _).perm hlists)
  · intro h
    exact ⟨_, hresult, (lists_foldl _).congr (perm_of_selected hplaced.nodup hnodup hmem h)⟩

end Listing

/-! ## Different actors -/

/-- **Actors apart.**  Different actors have different keys and do not interfere exactly if their names
do not clash.  `getAllSessions` of an application without separators and glob characters in its name
returns the placed actors of the type that it is asked for exactly if the actors that its pattern
selects are of that type and have no separators in their names. -/
theorem actors_apart_iff (app : String) :
    (∀ t id t' id', (t, id) ≠ (t', id') →
      (stateKey t id ≠ stateKey t' id' ∧ Rpc.place t id ≠ Rpc.place t' id' ∧
          Independent app t id t' id' ↔ ¬ ActorClash t id t' id')) ∧
    ∀ filter actors db reply, '_' ∉ app.toList → Glob.Literal app → Glob.Literal filter →
      Placed app db actors → KeysReply db (mangleKey app (sessionPattern filter)) reply →
      ((∃ m, getAllSessions (redisConfig app) reply = .ok m ∧
          Lists m (actors.filter fun a => Wanted filter a)) ↔
        ∀ a ∈ actors, Selected filter a → Wanted filter a ∧ SepFree a) := by
  constructor
  · intro t id t' id' hne
    constructor
    · intro h
      exact (independent_iff hne).mp h.2.2
    · intro hclash
      have hnames : ¬ ((t = t' ∧ id = id') ∨ ActorClash t id t' id') :=
        fun h => h.elim (fun heq => hne (by rw [heq.1, heq.2])) hclash
      exact ⟨fun h => hnames (stateKey_inj_iff.mp h), fun h => hnames (place_inj_iff.mp h),
        (independent_iff hne).mpr hclash⟩
  · intro filter actors db reply happ hname hfilter hplaced hreply
    exact getAllSessions_iff happ hname hfilter hplaced hreply

/-- A database with the placement of one actor. -/
theorem placed_single (app : String) (a : String × String) :
    Placed app (single (placementOf app a.1 a.2)) [a] := by
  refine ⟨nodup_singleton a, ?_, ?_⟩
  · intro b hb
    rw [mem_singleton.mp hb]
    exact mem_single.mpr rfl
  · intro key hkey
    exact ⟨a, mem_singleton_self a, (mangleKey_injective app (mem_single.mp hkey)).symm⟩

/-- Two actors of one type are apart, and one that is placed is found by its type. -/
theorem items_apart :
    (stateKey "Item" "1" ≠ stateKey "Item" "2" ∧ Rpc.place "Item" "1" ≠ Rpc.place "Item" "2" ∧
        Independent "shop" "Item" "1" "Item" "2") ∧
      ∃ m, getAllSessions (redisConfig "shop") [placementOf "shop" "Item" "1"] = .ok m ∧
        Lists m [("Item", "1")] := by
  constructor
  · refine ((actors_apart_iff "shop").1 "Item" "1" "Item" "2" (by decide)).mpr ?_
    rintro (⟨x, hx, -⟩ | ⟨x, hx, -⟩)
    · have hlist := congrArg String.toList hx
      simp at hlist
    · have hlist := congrArg String.toList hx
      simp at hlist
  · refine ((actors_apart_iff "shop").2 "Item" [("Item", "1")] _ _ (by decide)
      (by simp [Glob.Literal, Glob.specials]) (by simp [Glob.Literal, Glob.specials])
      (placed_single "shop" ("Item", "1")) (keysReply_single (by decide +kernel))).mpr ?_
    intro a ha _
    rw [List.mem_singleton.mp ha]
    exact ⟨Or.inr rfl, by decide⟩

/-- The actors `a`, `b_c` and `a_b`, `c` share their keys: to place one is to place the other.  The
actor `Item`, `1_2` is returned as `Item`, `1`. -/
theorem separator_in_id_shares_keys :
    stateKey "a" "b_c" = stateKey "a_b" "c" ∧ Rpc.place "a" "b_c" = Rpc.place "a_b" "c" ∧
      ((ActorOp.place "" "node").run ⟨fun _ => none, rfl⟩ "shop" "a" "b_c" ∅).1.lookup
        (placementOf "shop" "a_b" "c") = some (.text "node") ∧
      Placed "shop" (single (placementOf "shop" "Item" "1_2")) [("Item", "1_2")] ∧
      KeysReply (single (placementOf "shop" "Item" "1_2")) (mangleKey "shop" (sessionPattern "Item"))
        [placementOf "shop" "Item" "1_2"] ∧
      (getAllSessions (redisConfig "shop") [placementOf "shop" "Item" "1_2"]).map
        (fun m => m.get? "Item") = .ok (some ["1"]) :=
  have hkey : placementOf "shop" "a_b" "c" = placementOf "shop" "a" "b_c" := by decide
  ⟨by decide, by decide, by rw [hkey]; exact AList.lookup_insert _,
    placed_single "shop" ("Item", "1_2"), keysReply_single (by decide +kernel), by decide +kernel⟩

end Kar.Runtime
