import Kar.Rpc.Routing
import Kar.Runtime.StateMaps
import Kar.Store.Database

/-!
# Applications that share a database

`Main` and `purge` of `core/internal/runtime/runtime-main.go`.  Every application prefixes its keys with
`kar_`, its name and a separator.  `UnmangleKey` splits a key at the separators and compares the second
piece with the name, and a purge deletes the keys that match `kar_`, the name and `_*`.

None of this looks at the name, which is only required not to be empty.  For a name without glob
characters, an application is isolated from another one exactly if its name has no separator and the
other name does not extend it by a separator (`isolated_iff`).
-/

namespace Kar.Runtime

open Kar.Lib Kar.Store

/-! ## Keys -/

def mangleKey (appName key : String) : String := "kar" ++ "_" ++ appName ++ "_" ++ key

def unmangleKey (appName key : String) : Except String String :=
  match splitString '_' key with
  | [] => .error "index out of range [0] with length 0"
  | [part] => if part = "kar" then .error "index out of range [1] with length 1" else .ok key
  | part₀ :: part₁ :: rest =>
    if part₀ = "kar" ∧ part₁ = appName then .ok ("_".intercalate rest) else .ok key

/-- The configuration of the store of an application. -/
def redisConfig (appName : String) : StoreConfig where
  mangleKey := mangleKey appName
  unmangleKey := unmangleKey appName

def bindingKey (kind actorType actorID partition id : String) : String :=
  "binding" ++ "_" ++ partition ++ "_" ++ kind ++ "_" ++ actorType ++ "_" ++ actorID ++ "_" ++ id

/-- The keys that the runtime produces. -/
inductive RuntimeKey : String → Prop
  | state (t id : String) : RuntimeKey (stateKey t id)
  | placement (t id : String) : RuntimeKey (Rpc.place t id)
  | redirection (id : String) : RuntimeKey (Rpc.alt id)
  | binding (kind actorType actorID partition id : String) :
    RuntimeKey (bindingKey kind actorType actorID partition id)

theorem mangleKey_eq :
    mangleKey appName key = "kar" ++ "_" ++ (appName ++ "_" ++ key) := by
  simp [mangleKey, String.append_assoc]

theorem mangleKey_injective (appName : String) : Function.Injective (mangleKey appName) := by
  intro k k' h
  exact (String.append_right_inj _).mp h

/-- The keys of the application `b` that begin like the keys of `a`. -/
theorem mangleKey_prefix_iff :
    (∃ r, mangleKey b k = mangleKey a r) ↔
      b = a ∨ (∃ x, b = a ++ "_" ++ x) ∨ ∃ x r, a = b ++ "_" ++ x ∧ k = x ++ "_" ++ r := by
  simp [mangleKey_eq, string_append_sep_prefix_iff separator_toList]

/-- The pieces of a mangled key. -/
theorem splitString_mangleKey :
    splitString '_' (mangleKey appName key) =
      "kar" :: (splitString '_' appName ++ splitString '_' key) := by
  have hkar : splitString '_' "kar" = ["kar"] := splitString_of_notMem (by decide)
  rw [mangleKey, splitString_append_sep separator_toList, splitString_append_sep separator_toList,
    hkar, List.append_assoc, List.singleton_append]

/-- `UnmangleKey` undoes `MangleKey` if the name has no separator. -/
theorem unmangleKey_mangleKey (happ : '_' ∉ appName.toList) (key : String) :
    unmangleKey appName (mangleKey appName key) = .ok key := by
  rw [unmangleKey, splitString_mangleKey, splitString_of_notMem happ, List.singleton_append]
  simp only [if_true, and_self]
  rw [intercalate_splitString separator_toList]

/-- With a separator in the name, a mangled key is returned as it is. -/
theorem unmangleKey_mangleKey_of_mem (happ : '_' ∈ appName.toList) :
    unmangleKey appName (mangleKey appName key) = .ok (mangleKey appName key) := by
  obtain ⟨part, parts, hparts⟩ := splitString_eq_cons '_' appName
  have hne : part ≠ appName := by
    intro heq
    have hpart : part ∈ splitString '_' appName := by rw [hparts]; exact List.mem_cons_self
    exact notMem_of_mem_splitString hpart (heq ▸ happ)
  rw [unmangleKey, splitString_mangleKey, hparts]
  simp [hne]

/-- A key that has more than one piece is unmangled without a panic. -/
theorem exists_unmangleKey (appName r : String) :
    ∃ key, unmangleKey appName ("kar" ++ "_" ++ r) = .ok key := by
  obtain ⟨part, parts, hparts⟩ := splitString_eq_cons '_' r
  rw [unmangleKey, splitString_append_sep separator_toList, splitString_of_notMem (by decide), hparts,
    List.singleton_append]
  dsimp only
  split
  · exact ⟨_, rfl⟩
  · exact ⟨_, rfl⟩

/-- `UnmangleKey` returns the key of a mangled key, or its argument. -/
theorem unmangleKey_eq_ok (h : unmangleKey appName key = .ok k) (hk : k ≠ "") :
    '_' ∉ appName.toList ∧ key = mangleKey appName k ∨ key = k := by
  unfold unmangleKey at h
  split at h
  · exact absurd h (by simp)
  · split at h
    · exact absurd h (by simp)
    · exact Or.inr (Except.ok.inj h)
  rename_i part₀ part₁ rest hparts
  split at h
  · rename_i hmatch
    have hrest : "_".intercalate rest = k := Except.ok.inj h
    obtain ⟨part, parts, rfl⟩ : ∃ part parts, rest = part :: parts := by
      apply List.exists_cons_of_ne_nil
      intro hnil
      rw [hnil] at hrest
      exact hk hrest.symm
    left
    constructor
    · rw [← hmatch.2]
      apply notMem_of_mem_splitString (c := '_') (s := key)
      rw [hparts]
      exact List.mem_cons_of_mem _ List.mem_cons_self
    · rw [← intercalate_splitString separator_toList key, hparts, hmatch.1, hmatch.2, mangleKey_eq,
        ← hrest]
      simp [String.intercalate_cons_cons, String.append_assoc]
  · exact Or.inr (Except.ok.inj h)

/-- What is put before the keys of an application without glob characters has none. -/
theorem mangleKey_literal (hname : Glob.Literal appName) :
    Glob.Literal ("kar" ++ "_" ++ appName ++ "_") := by
  simp only [Glob.literal_append]
  exact ⟨⟨⟨by simp [Glob.Literal, Glob.specials], by simp [Glob.Literal, Glob.specials]⟩, hname⟩,
    by simp [Glob.Literal, Glob.specials]⟩

/-- What a pattern of the application matches. -/
theorem glob_mangleKey_iff (hname : Glob.Literal appName) :
    Glob.glob (mangleKey appName pattern) key = true ↔
      ∃ k, key = mangleKey appName k ∧ Glob.glob pattern k = true :=
  Glob.glob_append_iff (mangleKey_literal hname) pattern key

/-! ## Isolation -/

/-- The application `a` does not interfere with `b`: their keys differ, `Keys` of `a` returns keys of `a`
only, as they were stored, and a purge of `a` leaves the keys of `b` in place. -/
structure Isolated (a b : String) : Prop where
  distinct : ∀ k k', RuntimeKey k → RuntimeKey k' → mangleKey a k ≠ mangleKey b k'
  keys_own : ∀ db : Db,
    (∀ key ∈ db, ∃ k, RuntimeKey k ∧ (key = mangleKey a k ∨ key = mangleKey b k)) →
    ∀ pattern reply, KeysReply db (mangleKey a pattern) reply →
      ∃ ks, keys (redisConfig a) reply = .ok ks ∧ reply = ks.map (mangleKey a) ∧
        ∀ k ∈ ks, RuntimeKey k
  purge_spares : ∀ (db : Db) (replies : List KeyScanReply),
    FullKeyScan db (mangleKey a "*") replies →
    ∀ k, RuntimeKey k → (purge replies db).1.lookup (mangleKey b k) = db.lookup (mangleKey b k)

/-- Keys of one application are all unmangled. -/
theorem mapM_unmangleKey (happ : '_' ∉ appName.toList) (ks : List String) :
    (ks.map (mangleKey appName)).mapM (unmangleKey appName) = .ok ks := by
  induction ks with
  | nil => rfl
  | cons _ _ ih =>
    rw [List.map_cons, List.mapM_cons, unmangleKey_mangleKey happ, ih]
    rfl

/-- What a pattern of an application matches begins like a mangled key, whatever the name is. -/
theorem eq_append_of_glob_mangleKey
    (hglob : Glob.glob (mangleKey appName pattern) key = true) : ∃ r, key = "kar" ++ "_" ++ r := by
  have hkar : Glob.Literal ("kar" ++ "_") := by simp [Glob.Literal, Glob.specials]
  rw [mangleKey_eq] at hglob
  obtain ⟨r, hr, -⟩ := (Glob.glob_append_iff hkar _ _).mp hglob
  exact ⟨r, hr⟩

section BindingKey

variable (kind actorType actorID partition id : String)

-- Unfolding by `rfl`: the equation lemma that `simp` would make is slow to check.
theorem bindingKey_eq : bindingKey kind actorType actorID partition id =
    "binding" ++ "_" ++ partition ++ "_" ++ kind ++ "_" ++ actorType ++ "_" ++ actorID ++ "_" ++ id := rfl

theorem bindingKey_ne_empty : bindingKey kind actorType actorID partition id ≠ "" := by
  simp [bindingKey_eq]

/-- The key of a binding does not begin like a mangled key. -/
theorem bindingKey_ne_append (r : String) :
    bindingKey kind actorType actorID partition id ≠ "kar" ++ "_" ++ r := by
  intro h
  have hlist := congrArg String.toList h
  simp [bindingKey_eq] at hlist

end BindingKey

/-- `Keys` of an application returns without a panic. -/
theorem exists_keys (hreply : KeysReply db (mangleKey appName pattern) reply) :
    ∃ ks, keys (redisConfig appName) reply = .ok ks := by
  apply exists_mapM_eq_ok
  intro x hx
  obtain ⟨r, rfl⟩ := eq_append_of_glob_mangleKey ((hreply.mem_iff x).mp hx).2
  exact exists_unmangleKey appName r

/-- What `Keys` of an application returns: its own keys that match, each one once. -/
theorem keys_of_reply (happ : '_' ∉ appName.toList)
    (hname : Glob.Literal appName) (hreply : KeysReply db (mangleKey appName pattern) reply) :
    ∃ ks, keys (redisConfig appName) reply = .ok ks ∧ reply = ks.map (mangleKey appName) ∧
      ks.Nodup ∧ ∀ k, k ∈ ks ↔ mangleKey appName k ∈ db ∧ Glob.glob pattern k = true := by
  have hown : ∀ key ∈ reply, ∃ k, mangleKey appName k = key := by
    intro key hkey
    obtain ⟨k, hk, -⟩ := (glob_mangleKey_iff hname).mp ((hreply.mem_iff key).mp hkey).2
    exact ⟨k, hk.symm⟩
  obtain ⟨ks, rfl⟩ : reply ∈ Set.range (List.map (mangleKey appName)) := by
    rw [Set.range_list_map]
    exact hown
  refine ⟨ks, mapM_unmangleKey happ ks, rfl, hreply.nodup.of_map _, fun k => ?_⟩
  rw [← List.mem_map_of_injective (mangleKey_injective appName), hreply.mem_iff,
    glob_mangleKey_iff hname]
  constructor
  · intro h
    obtain ⟨hmem, k', hk, hglob⟩ := h
    exact ⟨hmem, mangleKey_injective appName hk ▸ hglob⟩
  · intro h
    exact ⟨h.1, k, rfl, h.2⟩

/-- A database with one key. -/
def single (key : String) : Db := (∅ : Db).insert key (.text "")

theorem mem_single : key' ∈ single key ↔ key' = key := by
  rw [single, AList.mem_insert]
  simp

/-- The scan of a database with one key, which matches. -/
theorem fullKeyScan_single (hglob : Glob.glob pattern key = true) :
    FullKeyScan (single key) pattern [⟨0, [key]⟩] := by
  refine ⟨⟨[], _, rfl, rfl, by simp⟩, fun key' => ?_⟩
  rw [mem_single, List.flatMap_singleton, List.mem_singleton]
  exact ⟨fun hkey => ⟨hkey, hkey ▸ hglob⟩, fun hkey => hkey.1⟩

theorem keysReply_single (hglob : Glob.glob pattern key = true) :
    KeysReply (single key) pattern [key] := by
  refine ⟨List.nodup_singleton key, fun key' => ?_⟩
  rw [List.mem_singleton, mem_single]
  exact ⟨fun hkey => ⟨hkey, hkey ▸ hglob⟩, fun hkey => hkey.1⟩

/-- The keys of `b` do not begin like the keys of `a`. -/
theorem mangleKey_not_prefix (hne : a ≠ b) (ha : '_' ∉ a.toList)
    (hext : ∀ x, b ≠ a ++ "_" ++ x) (k r : String) : mangleKey b k ≠ mangleKey a r := by
  intro h
  rcases mangleKey_prefix_iff.mp ⟨r, h⟩ with heq | ⟨x, heq⟩ | ⟨x, r, heq, -⟩
  · exact hne heq.symm
  · exact hext x heq
  · exact ha (by rw [heq]; simp)

/-- An application whose name has a separator does not unmangle its keys. -/
theorem Isolated.notMem (hname : Glob.Literal a) (h : Isolated a b) :
    '_' ∉ a.toList := by
  intro ha
  have hdb : ∀ key ∈ single (mangleKey a (Rpc.alt "r")), ∃ k, RuntimeKey k ∧ (key = mangleKey a k ∨
      key = mangleKey b k) := fun key hkey => ⟨_, .redirection "r", Or.inl (mem_single.mp hkey)⟩
  have hreply : KeysReply (single (mangleKey a (Rpc.alt "r"))) (mangleKey a "*") [mangleKey a
      (Rpc.alt "r")] := keysReply_single ((glob_mangleKey_iff hname).mpr ⟨_, rfl, Glob.glob_star _⟩)
  obtain ⟨ks, hks, hmap, -⟩ := h.keys_own _ hdb "*" _ hreply
  have hkeys : keys (redisConfig a) [mangleKey a (Rpc.alt "r")] =
      .ok [mangleKey a (Rpc.alt "r")] := by
    have hkey : (redisConfig a).unmangleKey (mangleKey a (Rpc.alt "r")) =
        .ok (mangleKey a (Rpc.alt "r")) := unmangleKey_mangleKey_of_mem ha
    rw [keys, List.mapM_cons, hkey]
    rfl
  -- The key would be mangled twice.
  rw [hkeys, Except.ok.injEq] at hks
  rw [← hks, List.map_singleton, List.singleton_inj] at hmap
  have hlen := congrArg String.length (mangleKey_injective a hmap)
  rw [mangleKey, String.length_append] at hlen
  have hpos : 0 < ("kar" ++ "_" ++ a ++ "_").length := by
    simp only [String.length_append]
    have hkar : "kar".length = 3 := rfl
    omega
  omega

/-- A purge deletes the keys of an application whose name extends the purged one. -/
theorem Isolated.not_extends (hname : Glob.Literal a) (h : Isolated a b) (x : String) :
    b ≠ a ++ "_" ++ x := by
  intro heq
  obtain ⟨r, hr⟩ : ∃ r, mangleKey b (Rpc.alt "r") = mangleKey a r :=
    mangleKey_prefix_iff.mpr (Or.inr (Or.inl ⟨x, heq⟩))
  have hglob := (glob_mangleKey_iff hname).mpr ⟨r, hr, Glob.glob_star r⟩
  have hscan := fullKeyScan_single hglob
  have hspared := h.purge_spares _ _ hscan _ (.redirection "r")
  rw [lookup_purge hscan, if_pos hglob, single, AList.lookup_insert] at hspared
  exact absurd hspared (by simp)

/-- **Isolation.**  An application whose name has no glob characters is isolated from another one
exactly if its name has no separator and the other name does not extend it by a separator. -/
theorem isolated_iff (a b : String) (hne : a ≠ b) (hname : Glob.Literal a) :
    Isolated a b ↔ '_' ∉ a.toList ∧ ∀ x, b ≠ a ++ "_" ++ x := by
  constructor
  · intro h
    exact ⟨h.notMem hname, h.not_extends hname⟩
  · intro h
    obtain ⟨ha, hext⟩ := h
    have hother := mangleKey_not_prefix hne ha hext
    refine ⟨fun k k' _ _ heq => hother k' k heq.symm, ?_, ?_⟩
    · intro db hdb pattern reply hreply
      obtain ⟨ks, hks, hmap, -, hmem⟩ := keys_of_reply ha hname hreply
      refine ⟨ks, hks, hmap, fun r hr => ?_⟩
      obtain ⟨k, hk, heq | heq⟩ := hdb _ ((hmem r).mp hr).1
      · exact mangleKey_injective a heq ▸ hk
      · exact absurd heq.symm (hother k r)
    · intro db replies hscan k _
      rw [lookup_purge hscan, if_neg]
      intro hglob
      obtain ⟨r, hr, -⟩ := (glob_mangleKey_iff hname).mp hglob
      exact hother k r hr

/-- The applications `shop` and `shop-test` do not interfere. -/
theorem shop_isolated : Isolated "shop" "shop-test" :=
  (isolated_iff "shop" "shop-test" (by decide) (by simp [Glob.Literal, Glob.specials])).mpr
    ⟨by decide, fun x h => by
      have hlist := congrArg String.toList h
      simp at hlist⟩

/-- A purge of `shop` deletes a key of `shop_test`, and `shop_test` does not unmangle its keys. -/
theorem shop_purges_shop_test :
    FullKeyScan (single (mangleKey "shop_test" "rpc_T_i")) (mangleKey "shop" "*")
        [⟨0, [mangleKey "shop_test" "rpc_T_i"]⟩] ∧
      mangleKey "shop_test" "rpc_T_i" ∈ single (mangleKey "shop_test" "rpc_T_i") ∧
      mangleKey "shop_test" "rpc_T_i" ∉ (purge [⟨0, [mangleKey "shop_test" "rpc_T_i"]⟩]
        (single (mangleKey "shop_test" "rpc_T_i"))).1 ∧
      unmangleKey "shop_test" (mangleKey "shop_test" "rpc_T_i") = .ok "kar_shop_test_rpc_T_i" :=
  ⟨fullKeyScan_single (by decide +kernel), by decide +kernel, by decide +kernel,
    unmangleKey_mangleKey_of_mem (by decide)⟩

end Kar.Runtime
