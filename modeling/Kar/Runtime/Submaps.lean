import Kar.Lib.Run
import Kar.Runtime.GetAll

/-!
# Operations on a map

`routeImplSubmapOps` of `core/internal/runtime/routes-state.go`: clear a map of an actor, get it, list
its subkeys, or count them.  The four operations scan the hash for the fields that match the name of
the map, a separator and `*`.

For a name without glob characters these are the fields that begin with the name and a separator
(`Holds.mem_scanned_iff`).  Besides the entries of the map, there may be entries among them whose
names only begin alike (`Entry.Beside`): the plain entry with the name of the map, and entries whose
names have separators.  The operations are right exactly if there is no such entry; `keys` and
`size` also need a scan that returns no field twice, and `clear` needs a map that is not empty.
-/

namespace Kar.Runtime

open Kar.Lib Kar.Store

/-! ## The scan -/

/-- The loop over the replies of `HSCAN`.  It ends at the first cursor that is zero, or at an error of
`op`. -/
def subMapScan {σ : Type} (op : σ → String × String → Except String σ) :
    σ → List ScanReply → Except String σ
  | s, [] => .ok s
  | s, reply :: replies => do
    let s ← reply.result.foldlM op s
    if reply.cursor = 0 then .ok s else subMapScan op s replies

/-- The pattern of the fields of a map. -/
def subkeyPattern (mapName : String) : String := nestedEntryKeyPrefix mapName ++ "*"

/-- The fields and values of a full scan. -/
def scanned (replies : List ScanReply) : List (String × String) := replies.flatMap ScanReply.result

variable {h : StateHash} {pattern v mapName : String} {replies : List ScanReply}

/-- A full scan is read to its end. -/
theorem subMapScan_eq (op : σ → String × String → Except String σ)
    (hscan : FullScan h pattern replies) (s : σ) :
    subMapScan op s replies = (scanned replies).foldlM op s := by
  obtain ⟨pages, last, rfl, hlast, hpages⟩ := hscan.cycle
  clear hscan
  induction pages generalizing s with
  | nil =>
    simp only [List.nil_append, subMapScan, if_pos hlast, scanned, List.flatMap_cons,
      List.flatMap_nil, List.append_nil]
    exact bind_pure _
  | cons page _ ih =>
    have ih := fun s => ih s fun r hr => hpages r (List.mem_cons_of_mem page hr)
    simp [subMapScan, if_neg (hpages page List.mem_cons_self), ih, scanned, List.flatMap_cons]

/-! ## The handler -/

/-- What is marshalled into the body of a reply. -/
inductive SubmapResponse where
  | number (n : Nat)
  | list (keys : List String)
  | map (fields : String → Option Value)

/-- A reply with a response, or an HTTP error. -/
inductive SubmapReply where
  | response (r : SubmapResponse)
  | failed (r : Reply)

/-- The function that `get` applies to the fields of the scan. -/
def getUserValue (j : Json) (subkeyPrefix : String) (m : GoMap String Value) (p : String × String) :
    Except String (GoMap String Value) :=
  if p.2 ≠ "" then
    match j.unmarshal p.2 with
    | none => .error ("Failed to deserialize submap value: " ++ p.2)
    | some userValue => .ok (m.set (trimPrefix p.1 subkeyPrefix) userValue)
  else .ok m

/-- `none` is a body that is not a `MapOp`. -/
def routeImplSubmapOps (j : Json) (op : Option String) (mapName : String)
    (replies : List ScanReply) (h : StateHash) : StateHash × Except String SubmapReply :=
  let subkeyPrefix := nestedEntryKeyPrefix mapName
  match op with
  | none => (h, .ok (.failed (.error "Request body was not a MapOp" 400)))
  | some "clear" =>
    match subMapScan (fun mapKeys p => .ok (mapKeys ++ [p.1])) ([] : List String) replies with
    | .error err => (h, .ok (.failed (.error ("submapOps:clear: subMapScan failed: " ++ err) 500)))
    | .ok mapKeys =>
      match hDelMultiple h mapKeys with
      | .error panic => (h, .error panic)
      | .ok (h', numCleared) => (h', .ok (.response (.number numCleared)))
  | some "get" =>
    match subMapScan (getUserValue j subkeyPrefix) GoMap.empty replies with
    | .error err => (h, .ok (.failed (.error ("submapOps:get: subMapScan failed: " ++ err) 500)))
    | .ok m => (h, .ok (.response (.map m)))
  | some "keys" =>
    match subMapScan (fun userKeys p => .ok (userKeys ++ [trimPrefix p.1 subkeyPrefix]))
        ([] : List String) replies with
    | .error err => (h, .ok (.failed (.error ("submapOps:keys: subMapScan failed: " ++ err) 500)))
    | .ok userKeys => (h, .ok (.response (.list userKeys)))
  | some "size" =>
    match subMapScan (fun size _ => .ok (size + 1)) 0 replies with
    | .error err => (h, .ok (.failed (.error ("submapOps:size: subMapScan failed: " ++ err) 500)))
    | .ok size => (h, .ok (.response (.number size)))
  | some op => (h, .ok (.failed (.error ("Unsupported map operation " ++ op) 400)))

/-- The whole state is removed with its key. -/
def routeImplDelAll (h : StateHash) : Handled :=
  (∅, .ok (.text (toString (if h.pairs = [] then 0 else 1))))

/-! ## What the operations return -/

section Operations

variable {h : StateHash}

theorem foldlM_collect (f : α → β) (l : List α) (acc : List β) :
    l.foldlM (fun acc p => (.ok (acc ++ [f p]) : Except String (List β))) acc =
      .ok (acc ++ l.map f) := by
  induction l generalizing acc with
  | nil =>
    rw [List.map_nil, List.append_nil]
    rfl
  | cons p l ih =>
    have hcons : acc ++ (p :: l).map f = (acc ++ [f p]) ++ l.map f := by simp
    rw [hcons]
    exact ih (acc ++ [f p])

theorem foldlM_count (l : List α) (n : Nat) :
    l.foldlM (fun n _ => (.ok (n + 1) : Except String Nat)) n = .ok (n + l.length) := by
  induction l generalizing n with
  | nil => rfl
  | cons p l ih =>
    rw [List.foldlM_cons, List.length_cons, Nat.add_comm l.length, ← Nat.add_assoc]
    exact ih _

theorem submapOps_clear (j : Json) (hscan : FullScan h pattern replies) :
    routeImplSubmapOps j (some "clear") mapName replies h =
      match hDelMultiple h ((scanned replies).map Prod.fst) with
      | .error panic => (h, .error panic)
      | .ok (h', numCleared) => (h', .ok (.response (.number numCleared))) := by
  simp [routeImplSubmapOps, subMapScan_eq _ hscan, foldlM_collect]

theorem submapOps_keys (j : Json) (hscan : FullScan h pattern replies) :
    routeImplSubmapOps j (some "keys") mapName replies h =
      (h, .ok (.response (.list ((scanned replies).map fun p =>
        trimPrefix p.1 (nestedEntryKeyPrefix mapName))))) := by
  simp [routeImplSubmapOps, subMapScan_eq _ hscan, foldlM_collect]

theorem submapOps_size (j : Json) (hscan : FullScan h pattern replies) :
    routeImplSubmapOps j (some "size") mapName replies h =
      (h, .ok (.response (.number (scanned replies).length))) := by
  simp only [routeImplSubmapOps, subMapScan_eq _ hscan, foldlM_count, Nat.zero_add]

theorem Json.read_of_isSome (j : Json) (hs : (j.unmarshal s).isSome) :
    s ≠ "" ∧ j.unmarshal s = some (j.read s) := by
  obtain ⟨v, hv⟩ := Option.isSome_iff_exists.mp hs
  refine ⟨fun hempty => ?_, by rw [Json.read, hv]; rfl⟩
  rw [hempty, j.unmarshal_empty] at hv
  exact absurd hv (by simp)

theorem foldlM_getUserValue (j : Json) (subkeyPrefix : String) {l : List (String × String)}
    (hl : ∀ p ∈ l, (j.unmarshal p.2).isSome) (m : GoMap String Value) :
    l.foldlM (getUserValue j subkeyPrefix) m = .ok ((l.map fun p => (trimPrefix p.1 subkeyPrefix,
      j.read p.2)).foldl (fun m p => m.set p.1 p.2) m) := by
  induction l generalizing m with
  | nil => rfl
  | cons p l ih =>
    obtain ⟨hne, hread⟩ := j.read_of_isSome (hl p List.mem_cons_self)
    rw [List.foldlM_cons, getUserValue, if_pos hne, hread, List.map_cons, List.foldl_cons]
    exact ih (fun q hq => hl q (List.mem_cons_of_mem p hq)) _

/-- If all values are JSON texts, the result is filled by assignments. -/
theorem submapOps_get (hscan : FullScan h pattern replies)
    (hjson : ∀ p ∈ scanned replies, (j.unmarshal p.2).isSome) :
    routeImplSubmapOps j (some "get") mapName replies h =
      (h, .ok (.response (.map (GoMap.ofList ((scanned replies).map fun p =>
        (trimPrefix p.1 (nestedEntryKeyPrefix mapName), j.read p.2)))))) := by
  simp only [routeImplSubmapOps, subMapScan_eq _ hscan, foldlM_getUserValue j _ hjson]
  rfl

end Operations

/-! ## Entries with names that begin alike -/

/-- The entry is not in the map, but its field begins like the fields of the map: it is the plain
entry with the name of the map, its key extends the name by a separator, or the name extends its key
and the subkey goes on with the name. -/
def Entry.Beside (mapName : String) (e : Entry) : Prop :=
  e = .plain mapName ∨ (∃ x, e.key = mapName ++ "_" ++ x) ∨
    ∃ x r, mapName = e.key ++ "_" ++ x ∧ e.rest = x ++ "_" ++ r

/-- No entry of the state is beside the map. -/
def TwoMaps.Undisturbed (m : TwoMaps) (mapName : String) : Prop :=
  ∀ e v, m.get? e = some v → ¬ e.Beside mapName

/-- A name is not extended by itself. -/
theorem ne_append_sep : a ≠ a ++ "_" ++ x := by
  intro h
  have hlen := congrArg String.length h
  have hsep : "_".length = 1 := rfl
  rw [String.length_append, String.length_append, hsep] at hlen
  omega

theorem Entry.not_beside_nested :
    ¬ (Entry.nested mapName subkey).Beside mapName := by
  intro h
  rcases h with h | ⟨x, h⟩ | ⟨x, r, h, -⟩
  · exact absurd h (by simp)
  · exact ne_append_sep h
  · exact ne_append_sep h

/-- The fields that begin with the name of the map and a separator. -/
theorem Entry.prefix_iff (mapName : String) (e : Entry) :
    (∃ r, e.field = nestedEntryKeyPrefix mapName ++ r) ↔
      (∃ subkey, e = .nested mapName subkey) ∨ e.Beside mapName := by
  rw [nestedEntryKeyPrefix, Entry.field_eq, string_append_sep_prefix_iff separator_toList]
  constructor
  · intro h
    rcases h with h | h | h
    · cases e with
      | plain => exact Or.inr (Or.inl (congrArg Entry.plain h))
      | nested key subkey =>
        have hkey : key = mapName := h
        exact .inl ⟨subkey, by rw [hkey]⟩
    · exact .inr (.inr (.inl h))
    · exact .inr (.inr (.inr h))
  · intro h
    rcases h with ⟨subkey, rfl⟩ | rfl | h | h
    · exact .inl rfl
    · exact .inl rfl
    · exact .inr (.inl h)
    · exact .inr (.inr h)

section Scanned

variable {h : StateHash}

theorem literal_mapName (hname : Glob.Literal mapName) :
    Glob.Literal (nestedEntryKeyPrefix mapName) :=
  Glob.literal_append.mpr ⟨hname, by simp [Glob.Literal, Glob.specials]⟩

/-- A scan for a name without glob characters returns the entries of the map and those beside it. -/
theorem Holds.mem_scanned_iff (hholds : Holds E h m) (hname : Glob.Literal mapName)
    (hscan : FullScan h (subkeyPattern mapName) replies) :
    (f, v) ∈ scanned replies ↔ ∃ e, e.field = f ∧ m.get? e = some v ∧ ((∃ subkey, e = .nested
      mapName subkey) ∨ e.Beside mapName) := by
  have hmem : (f, v) ∈ scanned replies ↔
      h.lookup f = some v ∧ ∃ r, f = nestedEntryKeyPrefix mapName ++ r := by
    rw [← Glob.glob_star_iff (literal_mapName hname)]
    exact ⟨hscan.sound f v, fun hf => hscan.complete f v hf.1 hf.2⟩
  rw [hmem, hholds.lookup_iff]
  constructor
  · intro hf
    obtain ⟨⟨e, rfl, hv⟩, hprefix⟩ := hf
    exact ⟨e, rfl, hv, (Entry.prefix_iff mapName e).mp hprefix⟩
  · intro hf
    obtain ⟨e, rfl, hv, hprefix⟩ := hf
    exact ⟨⟨e, rfl, hv⟩, (Entry.prefix_iff mapName e).mpr hprefix⟩

/-- If no entry is beside the map, a scan returns the entries of the map. -/
theorem Holds.mem_scanned_of_undisturbed (hholds : Holds E h m) (hname : Glob.Literal mapName)
    (hscan : FullScan h (subkeyPattern mapName) replies) (hm : m.Undisturbed mapName)
    : (f, v) ∈ scanned replies ↔
      ∃ subkey, nestedEntryKey mapName subkey = f ∧ m.pairs.get? (mapName, subkey) = some v := by
  rw [hholds.mem_scanned_iff hname hscan]
  constructor
  · intro hf
    obtain ⟨e, rfl, hv, ⟨subkey, rfl⟩ | hbeside⟩ := hf
    · exact ⟨subkey, rfl, hv⟩
    · exact absurd hbeside (hm e v hv)
  · intro hf
    obtain ⟨subkey, rfl, hv⟩ := hf
    exact ⟨.nested mapName subkey, rfl, hv, .inl ⟨subkey, rfl⟩⟩

/-- What follows the name of the map in a field that was scanned. -/
theorem Holds.field_eq_of_scanned (hholds : Holds E h m) (hname : Glob.Literal mapName)
    (hscan : FullScan h (subkeyPattern mapName) replies) (hp : p ∈ scanned replies) :
    p.1 = nestedEntryKey mapName (trimPrefix p.1 (nestedEntryKeyPrefix mapName)) := by
  obtain ⟨e, he, -, hbegin⟩ := (hholds.mem_scanned_iff hname hscan).mp hp
  obtain ⟨r, hr⟩ := (Entry.prefix_iff mapName e).mpr hbegin
  rw [← he, hr, trimPrefix_append]
  rfl

@[simp] theorem trimPrefix_nestedEntryKey (mapName subkey : String) :
    trimPrefix (nestedEntryKey mapName subkey) (nestedEntryKeyPrefix mapName) = subkey :=
  trimPrefix_append _ _

end Scanned

/-! ## Runs -/

/-- The state without the entries of one map. -/
def TwoMaps.clear (m : TwoMaps) (mapName : String) : TwoMaps where
  keys := m.keys
  pairs := fun p => if p.1 = mapName then none else m.pairs.get? p

namespace TwoMaps

variable (m : TwoMaps) (mapName : String)

theorem get?_clear_nested :
    (m.clear mapName).get? (.nested mapName subkey) = none := by
  show (if mapName = mapName then none else m.pairs.get? (mapName, subkey)) = none
  rw [if_pos rfl]

theorem get?_clear_of_ne (he : ∀ subkey, e ≠ .nested mapName subkey) :
    (m.clear mapName).get? e = m.get? e := by
  cases e with
  | plain => rfl
  | nested key subkey =>
    show (if key = mapName then none else m.pairs.get? (key, subkey)) = m.pairs.get? (key, subkey)
    rw [if_neg fun hkey => he subkey (by rw [hkey])]

theorem get?_clear_eq_some :
    (m.clear mapName).get? e = some v ↔
      m.get? e = some v ∧ ∀ subkey, e ≠ .nested mapName subkey := by
  by_cases he : ∃ subkey, e = .nested mapName subkey
  · obtain ⟨subkey, rfl⟩ := he
    simp [get?_clear_nested]
  · have hne : ∀ subkey, e ≠ .nested mapName subkey := fun subkey heq => he ⟨subkey, heq⟩
    rw [get?_clear_of_ne m mapName hne]
    exact (and_iff_left hne).symm

end TwoMaps

/-- The removal of the fields of a scan clears the map, if no entry is beside it. -/
theorem Holds.cleared (hholds : Holds E h m)
    (hinj : Set.InjOn Entry.field E) (hname : Glob.Literal mapName)
    (hscan : FullScan h (subkeyPattern mapName) replies) (hm : m.Undisturbed mapName) :
    Holds E (h.remove ((scanned replies).map Prod.fst)).1 (m.clear mapName) := by
  constructor
  · intro e v hv
    exact hholds.support e v ((m.get?_clear_eq_some mapName).mp hv).1
  intro f v
  rw [Hash.lookup_remove]
  constructor
  · intro hv
    split at hv
    · exact absurd hv (by simp)
    rename_i hf
    obtain ⟨e, rfl, he⟩ := (hholds.lookup_iff f v).mp hv
    refine ⟨e, rfl, (m.get?_clear_eq_some mapName).mpr ⟨he, fun subkey heq => hf ?_⟩⟩
    exact List.mem_map_of_mem (f := Prod.fst) (a := (e.field, v))
      ((hholds.mem_scanned_iff hname hscan).mpr ⟨e, rfl, he, .inl ⟨subkey, heq⟩⟩)
  intro hv
  obtain ⟨e, rfl, hv⟩ := hv
  obtain ⟨hv, hne⟩ := (m.get?_clear_eq_some mapName).mp hv
  rw [if_neg]
  · exact (hholds.lookup_iff e.field v).mpr ⟨e, rfl, hv⟩
  -- A field of the scan belongs to an entry of the map, and to no other entry.
  intro hf
  obtain ⟨p, hp, hpe⟩ := List.mem_map.mp hf
  obtain ⟨subkey, hsub, hw⟩ := (hholds.mem_scanned_of_undisturbed hname hscan hm).mp hp
  refine hne subkey (hinj (hholds.support e v hv) ?_ (hpe.symm.trans hsub.symm))
  exact hholds.support (.nested mapName subkey) p.2 hw

/-- The requests that change the state of an actor. -/
inductive StateRequest where
  | entry (op : StateOp)
  | clear (mapName : String) (replies : List ScanReply)
  | delAll

/-- The state of an actor: the hash, and the two maps that it should hold. -/
structure Actor where
  hash : StateHash
  maps : TwoMaps

def Actor.step (j : Json) (t id : String) (a : Actor) : StateRequest → Option Actor
  | .entry op => some ⟨(op.handle t id a.hash).1, (a.maps.handle t id op).1⟩
  | .clear mapName replies =>
    some ⟨(routeImplSubmapOps j (some "clear") mapName replies a.hash).1, a.maps.clear mapName⟩
  | .delAll => some ⟨(routeImplDelAll a.hash).1, .empty⟩

/-- A request that keeps the two maps in the hash: it is about entries in `E`, or it clears a map with
a name without glob characters and no entry beside it. -/
def Admitted (E : Set Entry) (a : Actor) : StateRequest → Prop
  | .entry op => op.Over E
  | .clear mapName replies =>
    FullScan a.hash (subkeyPattern mapName) replies ∧ Glob.Literal mapName ∧
      a.maps.Undisturbed mapName
  | .delAll => True

/-- The states that admitted requests reach from an actor without state. -/
def Actor.Reached (j : Json) (t id : String) (E : Set Entry) (a : Actor) : Prop :=
  Reachable (Actor.step j t id) (Admitted E) ⟨∅, .empty⟩ a

theorem hDelMultiple_eq (hkeys : keys ≠ []) :
    hDelMultiple h keys = .ok (h.remove keys) := by
  rw [hDelMultiple, Hash.hdel, if_neg hkeys]
  rfl

theorem hDelMultiple_nil (h : StateHash) : ∃ panic, hDelMultiple h [] = .error panic := ⟨_, rfl⟩

/-- The hash after a clear.  Without a field the command panics, and the hash stays as it is. -/
theorem submapOps_clear_hash (hscan : FullScan h pattern replies) :
    (routeImplSubmapOps j (some "clear") mapName replies h).1 =
      (h.remove ((scanned replies).map Prod.fst)).1 := by
  rw [submapOps_clear j hscan]
  by_cases hkeys : (scanned replies).map Prod.fst = []
  · obtain ⟨panic, hpanic⟩ := hDelMultiple_nil h
    rw [hkeys, hpanic]
    rfl
  · rw [hDelMultiple_eq hkeys]

/-- Along a run of admitted requests, the hash holds the two maps. -/
theorem Actor.Reached.holds {t id : String} {E : Set Entry}
    (hinj : Set.InjOn Entry.field E) {a : Actor} (h : a.Reached j t id E) :
    Holds E a.hash a.maps := by
  induction h with
  | init => exact Holds.empty
  | @step _ _ request _ hok hstep ih =>
    cases request with
    | entry op =>
      cases hstep
      exact (ih.handle hinj t id op hok).2
    | clear =>
      cases hstep
      obtain ⟨hscan, hname, hm⟩ := hok
      rw [submapOps_clear_hash hscan]
      exact ih.cleared hinj hname hscan hm
    | delAll =>
      cases hstep
      exact Holds.empty

/-! ## Queries -/

/-- The subkeys of a map, each one once. -/
def TwoMaps.Subkeys (m : TwoMaps) (mapName : String) (keys : List String) : Prop :=
  keys.Nodup ∧ ∀ subkey, subkey ∈ keys ↔ (m.pairs.get? (mapName, subkey)).isSome

/-- What `keys` makes of a scan. -/
def userKeys (mapName : String) (replies : List ScanReply) : List String :=
  (scanned replies).map fun p => trimPrefix p.1 (nestedEntryKeyPrefix mapName)

theorem nestedEntryKey_injective : Function.Injective (nestedEntryKey mapName) := by
  intro subkey subkey' h
  rw [← trimPrefix_nestedEntryKey mapName subkey, h, trimPrefix_nestedEntryKey]

section Queries

variable {h : StateHash}
   (hholds : Holds E h m) (hname : Glob.Literal mapName)
  (hscan : FullScan h (subkeyPattern mapName) replies)

include hholds hname hscan

/-- The fields of a scan are the fields of what is left of them. -/
theorem Holds.map_fst_scanned :
    (scanned replies).map Prod.fst = (userKeys mapName replies).map (nestedEntryKey mapName) := by
  rw [userKeys, List.map_map]
  exact List.map_congr_left fun p hp => hholds.field_eq_of_scanned hname hscan hp

/-- A scan lists the subkeys of the map, if no entry is beside it. -/
theorem Holds.mem_userKeys (hm : m.Undisturbed mapName) :
    subkey ∈ userKeys mapName replies ↔ (m.pairs.get? (mapName, subkey)).isSome := by
  rw [Option.isSome_iff_exists, userKeys, List.mem_map]
  constructor
  · intro hsub
    obtain ⟨⟨f, v⟩, hp, rfl⟩ := hsub
    obtain ⟨subkey, rfl, hv⟩ := (hholds.mem_scanned_of_undisturbed hname hscan hm).mp hp
    exact ⟨v, by rw [trimPrefix_nestedEntryKey]; exact hv⟩
  · intro hsub
    obtain ⟨v, hv⟩ := hsub
    exact ⟨(nestedEntryKey mapName subkey, v), (hholds.mem_scanned_of_undisturbed hname hscan
      hm).mpr ⟨subkey, rfl, hv⟩, trimPrefix_nestedEntryKey mapName subkey⟩

/-- If a scan lists subkeys of the map only, no entry is beside the map. -/
theorem Holds.undisturbed_of_userKeys (hinj : Set.InjOn Entry.field E)
    (hkeys : ∀ subkey ∈ userKeys mapName replies, (m.pairs.get? (mapName, subkey)).isSome) :
    m.Undisturbed mapName := by
  intro e v hv hbeside
  have hp : (e.field, v) ∈ scanned replies :=
    (hholds.mem_scanned_iff hname hscan).mpr ⟨e, rfl, hv, Or.inr hbeside⟩
  have hfield := hholds.field_eq_of_scanned hname hscan hp
  obtain ⟨w, hw⟩ := Option.isSome_iff_exists.mp (hkeys _ (List.mem_map_of_mem hp))
  have heq := hinj (hholds.support e v hv) (hholds.support (.nested mapName _) w hw) hfield
  rw [heq] at hbeside
  exact Entry.not_beside_nested hbeside

/-- A scan without repetitions lists every subkey once. -/
theorem Holds.nodup_userKeys_iff :
    (userKeys mapName replies).Nodup ↔ ((scanned replies).map Prod.fst).Nodup := by
  rw [hholds.map_fst_scanned hname hscan, List.nodup_map_iff (nestedEntryKey_injective)]

/-- What `get` makes of a scan. -/
theorem Holds.ofList_scanned (j : Json) (hm : m.Undisturbed mapName)
    (hnodup : (userKeys mapName replies).Nodup) :
    GoMap.ofList ((scanned replies).map fun p =>
        (trimPrefix p.1 (nestedEntryKeyPrefix mapName), j.read p.2)) =
      fun subkey => (m.pairs.get? (mapName, subkey)).map j.read := by
  have hfst : ((scanned replies).map fun p =>
      (trimPrefix p.1 (nestedEntryKeyPrefix mapName), j.read p.2)).map Prod.fst =
        userKeys mapName replies := by
    rw [List.map_map]
    rfl
  funext subkey
  cases hv : m.pairs.get? (mapName, subkey) with
  | none =>
    refine GoMap.get?_ofList_eq_none ?_
    rw [hfst, hholds.mem_userKeys hname hscan hm, hv]
    simp
  | some v =>
    refine GoMap.get?_ofList_of_mem (by rw [hfst]; exact hnodup) (List.mem_map.mpr ?_)
    exact ⟨(nestedEntryKey mapName subkey, v), (hholds.mem_scanned_of_undisturbed hname hscan
      hm).mpr ⟨subkey, rfl, hv⟩, by rw [trimPrefix_nestedEntryKey]⟩

/-- The removal of the fields of a scan counts the entries of the map, also if a field was returned
several times. -/
theorem Holds.remove_scanned_count (hm : m.Undisturbed mapName) (hkeys : m.Subkeys mapName keys) :
    (h.remove ((scanned replies).map Prod.fst)).2 = keys.length := by
  have hmem : ∀ f ∈ (scanned replies).map Prod.fst, f ∈ h := by
    intro f hf
    obtain ⟨⟨f, v⟩, hp, rfl⟩ := List.mem_map.mp hf
    exact Hash.mem_iff_lookup.mpr ⟨v, (hscan.sound f v hp).1⟩
  have hfinset : ((scanned replies).map Prod.fst).toFinset =
      keys.toFinset.image (nestedEntryKey mapName) := by
    rw [hholds.map_fst_scanned hname hscan]
    ext f
    simp [List.mem_map, hholds.mem_userKeys hname hscan hm, hkeys.2]
  rw [Hash.remove_count, Finset.filter_true_of_mem (by simpa using hmem), hfinset,
    Finset.card_image_of_injective _ (nestedEntryKey_injective),
    List.toFinset_card_of_nodup hkeys.1]

end Queries

/-- A JSON text of these examples is a scalar. -/
private def textJson : Json where
  unmarshal s := if s = "" then none else some (.scalar s)
  unmarshal_empty := rfl

/-- An actor with the entry `x` of the map `a`. -/
private def mapActor : Actor :=
  ⟨(StateOp.handle "T" "i" ∅ (.set "a" "x" "1")).1, TwoMaps.empty.set (.nested "a" "x") "1"⟩

private theorem mapActor_reached : mapActor.Reached textJson "T" "i" {e | e.Clean} := by
  refine .step .init (l := .entry (.set "a" "x" "1")) ?_ rfl
  simp [Admitted, StateOp.Over, StateOp.entries, Entry.named, Entry.Clean, Entry.key]

private theorem mapActor_get? (h : mapActor.maps.get? e = some v) :
    e = .nested "a" "x" ∧ v = "1" := by
  have hget : (TwoMaps.empty.set (.nested "a" "x") "1").get? e = some v := h
  rw [TwoMaps.get?, TwoMaps.toMap_set, TwoMaps.toMap_empty, GoMap.get?_set] at hget
  split at hget
  · exact ⟨‹_›, (Option.some.inj hget).symm⟩
  · exact absurd hget (by simp)

private theorem mapActor_undisturbed : mapActor.maps.Undisturbed "a" := by
  intro e v hv
  rw [(mapActor_get? hv).1]
  exact Entry.not_beside_nested

/-- The reply to a clear whose scan returned a field. -/
theorem submapOps_clear_reply (hscan : FullScan h pattern replies)
    (hkeys : (scanned replies).map Prod.fst ≠ []) :
    (routeImplSubmapOps j (some "clear") mapName replies h).2 =
      .ok (.response (.number (h.remove ((scanned replies).map Prod.fst)).2)) := by
  rw [submapOps_clear j hscan, hDelMultiple_eq hkeys]

/-- **Clearing a map.**  In every state reached by admitted requests over entries without a clash, and
for a map name without glob characters, a clear answers with the number of entries of the map and
leaves the other entries alone, exactly if no entry is beside the map and the map is not empty. -/
theorem submap_clear_iff_undisturbed (j : Json) (t id : String) (E : Set Entry)
    (hE : ∀ e ∈ E, ∀ e' ∈ E, e.Clash e' → e = e') (a : Actor) (ha : a.Reached j t id E)
    (mapName : String) (hname : Glob.Literal mapName) (replies : List ScanReply)
    (hscan : FullScan a.hash (subkeyPattern mapName) replies) :
    (∃ keys, a.maps.Subkeys mapName keys ∧
      (routeImplSubmapOps j (some "clear") mapName replies a.hash).2 =
        .ok (.response (.number keys.length)) ∧
      ∀ e ∈ E, (routeImplSubmapOps j (some "clear") mapName replies a.hash).1.lookup e.field =
        (a.maps.clear mapName).get? e) ↔
      a.maps.Undisturbed mapName ∧ ∃ subkey, (a.maps.pairs.get? (mapName, subkey)).isSome := by
  have hinj := injOn_field hE
  have hholds := ha.holds hinj
  rw [submapOps_clear_hash hscan]
  constructor
  · intro h
    obtain ⟨keys, hkeys, hreply, hothers⟩ := h
    have hm : a.maps.Undisturbed mapName := by
      -- An entry beside the map would be removed.
      intro e v hv hbeside
      have hp := (hholds.mem_scanned_iff hname hscan).mpr ⟨e, rfl, hv, Or.inr hbeside⟩
      have hnested : ∀ subkey, e ≠ .nested mapName subkey := by
        intro subkey heq
        rw [heq] at hbeside
        exact Entry.not_beside_nested hbeside
      have hlookup := hothers e (hholds.support e v hv)
      rw [Hash.lookup_remove, if_pos (List.mem_map_of_mem (f := Prod.fst) hp),
        TwoMaps.get?_clear_of_ne _ _ hnested, hv] at hlookup
      exact absurd hlookup (by simp)
    refine ⟨hm, ?_⟩
    by_contra hempty
    have hnil : (scanned replies).map Prod.fst = [] := by
      rw [hholds.map_fst_scanned hname hscan, List.map_eq_nil_iff,
        List.eq_nil_iff_forall_not_mem]
      intro subkey hsub
      exact hempty ⟨subkey, (hholds.mem_userKeys hname hscan hm).mp hsub⟩
    obtain ⟨panic, hpanic⟩ := hDelMultiple_nil a.hash
    rw [submapOps_clear j hscan, hnil, hpanic] at hreply
    exact absurd hreply (by simp)
  · intro h
    obtain ⟨hm, subkey, hsub⟩ := h
    have hkeys : a.maps.Subkeys mapName (userKeys mapName replies).dedup :=
      ⟨List.nodup_dedup _, fun subkey => by
        rw [List.mem_dedup, hholds.mem_userKeys hname hscan hm]⟩
    have hne : (scanned replies).map Prod.fst ≠ [] := by
      rw [hholds.map_fst_scanned hname hscan, ne_eq, List.map_eq_nil_iff]
      exact List.ne_nil_of_mem ((hholds.mem_userKeys hname hscan hm).mpr hsub)
    refine ⟨_, hkeys, ?_, fun e he => ?_⟩
    · rw [submapOps_clear_reply hscan hne, hholds.remove_scanned_count hname hscan hm hkeys]
    · exact (hholds.cleared hinj hname hscan hm).lookup hinj he

/-- The map `a` with the entry `x` is cleared. -/
theorem one_entry_cleared :
    ∃ keys, mapActor.maps.Subkeys "a" keys ∧
      (routeImplSubmapOps textJson (some "clear") "a" (scanOnce mapActor.hash (subkeyPattern "a"))
        mapActor.hash).2 = .ok (.response (.number keys.length)) ∧
      ∀ e ∈ {e : Entry | e.Clean}, (routeImplSubmapOps textJson (some "clear") "a"
        (scanOnce mapActor.hash (subkeyPattern "a")) mapActor.hash).1.lookup e.field =
          (mapActor.maps.clear "a").get? e :=
  (submap_clear_iff_undisturbed textJson "T" "i" {e | e.Clean}
    (fun e he e' he' => Entry.clean_eq_of_clash he he') mapActor mapActor_reached "a"
    (by simp [Glob.Literal, Glob.specials]) _ (fullScan_scanOnce _ _)).mpr
    ⟨mapActor_undisturbed, "x", rfl⟩

/-- To clear an empty map is a panic, and to clear the map `a` also removes the plain entry `a`. -/
theorem empty_map_panics :
    (routeImplSubmapOps textJson (some "clear") "a" (scanOnce ∅ (subkeyPattern "a")) ∅).2 =
        .error ("Failed to send command HDEL to redis: " ++
          "ERR wrong number of arguments for 'hdel' command") ∧
      let h := hashAfter "T" "i" [.set "a" "" "1", .set "a" "x" "2"]
      let r := routeImplSubmapOps textJson (some "clear") "a" (scanOnce h (subkeyPattern "a")) h
      h.lookup (flatEntryKey "a") = some "1" ∧ r.1.lookup (flatEntryKey "a") = none ∧
        r.2 = .ok (.response (.number 2)) := by
  refine ⟨rfl, by decide +kernel, ?_, ?_⟩
  · rw [submapOps_clear_hash (fullScan_scanOnce _ _)]
    decide +kernel
  · rw [submapOps_clear_reply (fullScan_scanOnce _ _) (by decide +kernel)]
    refine congrArg (fun n => Except.ok (SubmapReply.response (.number n))) ?_
    decide +kernel

end Kar.Runtime
