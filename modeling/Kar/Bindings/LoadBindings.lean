import Kar.Lib.Decimal
import Kar.Bindings.Operations

/-!
# The bindings that are found again

`loadBindings` of `core/internal/runtime/bindings.go`.  After a rebalance the keys of the persisted
bindings are listed, each key is taken apart, and a `LoadBinding` is sent to the actor that it names.

A key is put together with separators and taken apart at the separators.  `Plain` says what makes the
one undo the other: no name has a separator.  The loop gives up at the first `LoadBinding` that fails,
and it returns as if it had been complete.
-/

namespace Kar.Bindings

open Kar.Lib Kar.Store Kar.Runtime

/-! ## The functions -/

/-- What a `LoadBinding` names. -/
structure Load where
  kind : String
  actor : Actor
  partition : Int32
  id : String
  deriving DecidableEq, Repr

def bindingPattern (partition : String) : String := "binding" ++ "_" ++ partition ++ "_" ++ "*"

/-- `parts[i]`, which panics if there is no such part. -/
def part (parts : List String) (i : Nat) : Except String String :=
  match parts[i]? with
  | some s => .ok s
  | none => .error ("index out of range [" ++ itoa i ++ "] with length " ++ itoa parts.length)

/-- The partition of a key.  What is not a number ends the process. -/
def parsePartition (s : String) : Except String Int32 :=
  match parseInt 32 s with
  | some p64 => .ok (Int32.ofInt p64)
  | none => .error "Unable to parse partition as an int"

def keyBinding (key : String) : Except String Load := do
  let parts := splitString '_' key
  let partition ← part parts 1 >>= parsePartition
  let kind ← part parts 2
  let actorType ← part parts 3
  let actorID ← part parts 4
  let id ← part parts 5
  return ⟨kind, ⟨actorType, actorID⟩, partition, id⟩

/-- The inner loop of `loadBindings`.  `tell n` is the error of the `LoadBinding` after `n` of them have
been sent.  The flag is false if the function returns from within the loop. -/
def loadKeys (tell : Nat → Option String) : List String → List Load → Except String (List Load × Bool)
  | [], sent => .ok (sent, true)
  | key :: keys, sent => do
    let load ← keyBinding key
    match tell sent.length with
    | some _ => return (sent, false)
    | none => loadKeys tell keys (sent ++ [load])

/-- What `loadBindings` has sent, and the error that it returns. -/
structure Loaded where
  sent : List Load
  err : Option String
  deriving DecidableEq, Repr

/-- `loadBindings`, with the replies of `KEYS` to the patterns of the partitions. -/
def loadBindings (sc : StoreConfig) (replies : Int32 → Except String (List String))
    (tell : Nat → Option String) : List Int32 → List Load → Except String Loaded
  | [], sent => .ok ⟨sent, none⟩
  | p :: partitions, sent =>
    match replies p with
    | .error err => .ok ⟨sent, some err⟩
    | .ok reply => do
      match ← keys sc reply >>= (loadKeys tell · sent) with
      | (sent, false) => return ⟨sent, none⟩
      | (sent, true) => loadBindings sc replies tell partitions sent

/-! ## Persisted bindings -/

theorem Kind.name_injective : Function.Injective Kind.name := by
  intro kind kind' h
  cases kind <;> cases kind' <;> simp_all [Kind.name]

/-- A binding as `putBinding` persists it. -/
structure Persisted where
  kind : Kind
  actor : Actor
  partition : Int32
  id : String
  deriving DecidableEq, Repr

namespace Persisted

def key (b : Persisted) : String :=
  bindingKey b.kind.name b.actor.type b.actor.id (itoa b.partition.toInt) b.id

def load (b : Persisted) : Load := ⟨b.kind.name, b.actor, b.partition, b.id⟩

/-- The pattern that lists the bindings of a partition. -/
def pattern (appName : String) (partition : Int32) : String :=
  mangleKey appName (bindingPattern (itoa partition.toInt))

/-- The binding is listed for its partition, and its key is taken apart as it was put together. -/
def Found (appName : String) (db : Db) (b : Persisted) : Prop :=
  ∀ reply, KeysReply db (pattern appName b.partition) reply →
    ∃ ks, keys (redisConfig appName) reply = .ok ks ∧ b.key ∈ ks ∧ keyBinding b.key = .ok b.load

/-- No name has a separator, and the pattern of the application matches the key. -/
structure Plain (appName : String) (b : Persisted) : Prop where
  application : '_' ∉ appName.toList
  listed : Glob.glob (pattern appName b.partition) (mangleKey appName b.key) = true
  actorType : '_' ∉ b.actor.type.toList
  actorID : '_' ∉ b.actor.id.toList
  id : '_' ∉ b.id.toList

theorem load_injective : Function.Injective load := by
  intro b b' h
  cases b with | mk kind actor partition id
  cases b' with | mk kind' actor' partition' id'
  simp only [load, Load.mk.injEq] at h
  obtain ⟨hkind, hactor, hpartition, hid⟩ := h
  rw [Kind.name_injective hkind, hactor, hpartition, hid]

end Persisted

/-! ## Taking a key apart -/

theorem part_eq_ok :
    part parts i = .ok s ↔ parts[i]? = some s := by
  unfold part
  split
  · rename_i s' hs
    simp [hs]
  · rename_i hs
    simp [hs]

/-- What `keyBinding` reads from a key. -/
theorem keyBinding_eq_ok :
    keyBinding key = .ok l ↔ (∃ p, (splitString '_' key)[1]? = some p ∧ parsePartition p = .ok
      l.partition) ∧ (splitString '_' key)[2]? = some l.kind ∧ (splitString '_' key)[3]? = some
      l.actor.type ∧ (splitString '_' key)[4]? = some l.actor.id ∧ (splitString '_' key)[5]? = some
      l.id := by
  unfold keyBinding
  simp only [bind_eq_ok, part_eq_ok]
  constructor
  · intro h
    obtain ⟨partition, hpartition, kind, hkind, actorType, htype, actorID, hactorID, id, hid, h⟩ := h
    cases h
    exact ⟨hpartition, hkind, htype, hactorID, hid⟩
  · intro h
    obtain ⟨hpartition, hkind, htype, hactorID, hid⟩ := h
    exact ⟨_, hpartition, _, hkind, _, htype, _, hactorID, _, hid, rfl⟩

theorem parsePartition_itoa (p : Int32) : parsePartition (itoa p.toInt) = .ok p := by
  have hmin := p.le_toInt
  have hmax := p.toInt_lt
  rw [parsePartition, parseInt_itoa (by omega) (by omega)]
  simp

theorem Kind.notMem_name (kind : Kind) : '_' ∉ kind.name.toList := by
  cases kind <;> decide

theorem notMem_itoa (n : Int) : '_' ∉ (itoa n).toList := by
  intro hmem
  cases mem_itoa hmem with
  | inl hminus => exact absurd hminus (by decide)
  | inr hdigit => exact absurd hdigit (by decide)

namespace Persisted

/-- The pieces of the key of a binding. -/
theorem splitString_key (b : Persisted) :
    splitString '_' b.key = "binding" :: itoa b.partition.toInt :: b.kind.name ::
      (splitString '_' b.actor.type ++ splitString '_' b.actor.id ++ splitString '_' b.id) := by
  have hbinding : splitString '_' "binding" = ["binding"] := splitString_of_notMem (by decide)
  simp only [key, bindingKey_eq, splitString_append_sep separator_toList, hbinding,
    splitString_of_notMem (notMem_itoa _), splitString_of_notMem b.kind.notMem_name]
  simp

/-- A key is taken apart as it was put together exactly if no name has a separator. -/
theorem keyBinding_key_iff (b : Persisted) :
    keyBinding b.key = .ok b.load ↔
      '_' ∉ b.actor.type.toList ∧ '_' ∉ b.actor.id.toList ∧ '_' ∉ b.id.toList := by
  rw [keyBinding_eq_ok]
  have hpiece : ∀ {i : Nat} {s : String}, (splitString '_' b.key)[i]? = some s → '_' ∉ s.toList :=
    fun h => notMem_of_mem_splitString (List.mem_of_getElem? h)
  constructor
  · intro h
    obtain ⟨-, -, htype, hactorID, hid⟩ := h
    exact ⟨hpiece htype, hpiece hactorID, hpiece hid⟩
  intro h
  obtain ⟨htype, hactorID, hid⟩ := h
  rw [splitString_key, splitString_of_notMem htype, splitString_of_notMem hactorID,
    splitString_of_notMem hid]
  exact ⟨⟨_, rfl, parsePartition_itoa b.partition⟩, rfl, rfl, rfl, rfl⟩

/-- The key of a binding does not match a pattern of an application. -/
theorem not_glob_key (appName pattern : String) (b : Persisted) :
    Glob.glob (mangleKey appName pattern) b.key ≠ true := by
  intro hglob
  obtain ⟨r, hr⟩ := eq_append_of_glob_mangleKey hglob
  exact bindingKey_ne_append _ _ _ _ _ r hr

/-- The keys of bindings in a listing. -/
theorem key_mem_keys_iff {appName pattern : String} {db : Db} {reply ks : List String}
    (hreply : KeysReply db (mangleKey appName pattern) reply)
    (hks : keys (redisConfig appName) reply = .ok ks) (b : Persisted) :
    b.key ∈ ks ↔ '_' ∉ appName.toList ∧ mangleKey appName b.key ∈ db ∧
      Glob.glob (mangleKey appName pattern) (mangleKey appName b.key) = true := by
  rw [mem_of_mapM_eq_ok hks, ← hreply.mem_iff]
  constructor
  · intro h
    obtain ⟨x, hx, hunmangle⟩ := h
    cases unmangleKey_eq_ok hunmangle (bindingKey_ne_empty _ _ _ _ _) with
    | inl hmangled => exact ⟨hmangled.1, hmangled.2 ▸ hx⟩
    | inr hsame =>
      exact absurd ((hreply.mem_iff _).mp (hsame ▸ hx)).2 (b.not_glob_key appName pattern)
  · intro h
    exact ⟨_, h.2, unmangleKey_mangleKey h.1 b.key⟩

/-- A persisted binding is found again exactly if its names are plain. -/
theorem found_iff_plain {appName : String} {db : Db} {b : Persisted}
    (hstored : mangleKey appName b.key ∈ db) : b.Found appName db ↔ b.Plain appName := by
  constructor
  · intro hfound
    obtain ⟨reply, hreply⟩ := exists_keysReply db (pattern appName b.partition)
    obtain ⟨ks, hks, hmem, hkey⟩ := hfound reply hreply
    obtain ⟨happ, -, hglob⟩ := (key_mem_keys_iff hreply hks b).mp hmem
    obtain ⟨htype, hactorID, hid⟩ := b.keyBinding_key_iff.mp hkey
    exact ⟨happ, hglob, htype, hactorID, hid⟩
  · intro hplain reply hreply
    obtain ⟨ks, hks⟩ := exists_keys hreply
    exact ⟨ks, hks, (key_mem_keys_iff hreply hks b).mpr ⟨hplain.application, hstored, hplain.listed⟩,
      b.keyBinding_key_iff.mpr ⟨hplain.actorType, hplain.actorID, hplain.id⟩⟩

end Persisted

/-! ## The loop -/

/-- The keys that are listed before `KEYS` fails. -/
def listing (sc : StoreConfig) (replies : Int32 → Except String (List String)) :
    List Int32 → List String
  | [] => []
  | p :: partitions =>
    match replies p with
    | .error _ => []
    | .ok reply => (keys sc reply).toOption.getD [] ++ listing sc replies partitions

/-- The listing is complete if `KEYS` does not fail. -/
theorem mem_listing {replies : Int32 → Except String (List String)}
    {partitions : List Int32} (hall : ∀ p ∈ partitions, ∃ reply, replies p = .ok reply) {p : Int32}
    (hp : p ∈ partitions) {reply ks : List String} (hreply : replies p = .ok reply)
    (hks : keys sc reply = .ok ks) {key : String} (hkey : key ∈ ks) :
    key ∈ listing sc replies partitions := by
  induction partitions with
  | nil => exact absurd hp List.not_mem_nil
  | cons q _ ih =>
    obtain ⟨reply', hq⟩ := hall q List.mem_cons_self
    rw [listing, hq, List.mem_append]
    cases List.mem_cons.mp hp with
    | inl heq =>
      left
      rw [heq, hq, Except.ok.injEq] at hreply
      rw [hreply, hks]
      exact hkey
    | inr hmem => exact Or.inr (ih (fun q' hq' => hall q' (List.mem_cons_of_mem q hq')) hmem)

/-- Of the bindings that are listed, the first `n` are sent, and then a `LoadBinding` fails. -/
structure Stops (tell : Nat → Option String) (start : Nat) (bs : List Persisted) (n : Nat) : Prop where
  le_length : n ≤ bs.length
  told : ∀ i < n, tell (start + i) = none
  failed : n < bs.length → tell (start + n) ≠ none

namespace Stops

variable {tell : Nat → Option String} {start n : Nat} {b : Persisted}

theorem cons_zero (h : tell start ≠ none) : Stops tell start (b :: bs) 0 :=
  ⟨Nat.zero_le _, fun i hi => absurd hi (Nat.not_lt_zero i), fun _ => h⟩

theorem cons_succ (h : tell start = none) (hn : Stops tell (start + 1) bs n) :
    Stops tell start (b :: bs) (n + 1) := by
  refine ⟨Nat.succ_le_succ hn.le_length, ?_, ?_⟩
  · intro i hi
    cases i with
    | zero => exact h
    | succ i =>
      have htold := hn.told i (by omega)
      rwa [show start + (i + 1) = start + 1 + i by omega]
  · intro hlt
    have hfailed := hn.failed (by simpa using hlt)
    rwa [show start + (n + 1) = start + 1 + n by omega]

/-- A failure ends the loop over the partitions too. -/
theorem append_left (hn : Stops tell start bs n) (hlt : n < bs.length) :
    Stops tell start (bs ++ bs') n := by
  refine ⟨?_, hn.told, fun _ => hn.failed hlt⟩
  rw [List.length_append]
  omega

theorem append (hbs : Stops tell start bs bs.length) (hn : Stops tell (start + bs.length) bs' n) :
    Stops tell start (bs ++ bs') (bs.length + n) := by
  refine ⟨?_, ?_, ?_⟩
  · have hle := hn.le_length
    rw [List.length_append]
    omega
  · intro i hi
    by_cases hlt : i < bs.length
    · exact hbs.told i hlt
    · have htold := hn.told (i - bs.length) (by omega)
      rwa [show start + bs.length + (i - bs.length) = start + i by omega] at htold
  · intro hlt
    rw [List.length_append] at hlt
    have hfailed := hn.failed (by omega)
    rwa [← Nat.add_assoc]

end Stops

variable (tell : Nat → Option String) {replies : Int32 → Except String (List String)}

/-- The inner loop, over keys that can be taken apart. -/
theorem loadKeys_spec (hbs : ∀ b ∈ bs, keyBinding b.key = .ok b.load) (sent : List Load) :
    ∃ n, Stops tell sent.length bs n ∧ loadKeys tell (bs.map Persisted.key) sent = .ok (sent ++
      (bs.take n).map Persisted.load, decide (n = bs.length)) := by
  induction bs generalizing sent with
  | nil => exact ⟨0, ⟨le_rfl, by simp, by simp⟩, by simp [loadKeys]⟩
  | cons b _ ih =>
    rw [List.map_cons, loadKeys, hbs b List.mem_cons_self]
    cases htell : tell sent.length with
    | some => exact ⟨0, .cons_zero (by simp [htell]), by simp [bind, Except.bind, pure, Except.pure]⟩
    | none =>
      obtain ⟨n, hn, hrun⟩ := ih (fun b' hb' => hbs b' (List.mem_cons_of_mem b hb')) (sent ++ [b.load])
      rw [List.length_append, List.length_singleton] at hn
      refine ⟨n + 1, .cons_succ htell hn, ?_⟩
      simpa [bind, Except.bind] using hrun

/-- The replies list bindings that can be taken apart. -/
def Lists (sc : StoreConfig) (replies : Int32 → Except String (List String)) (p : Int32) : Prop :=
  ∀ reply, replies p = .ok reply →
    ∃ bs : List Persisted, keys sc reply = .ok (bs.map Persisted.key) ∧ ∀ b ∈ bs, keyBinding b.key = .ok b.load

/-- What `loadBindings` has sent when it returns. -/
theorem loadBindings_spec (hlists : ∀ p ∈ partitions, Lists sc replies p) (sent : List Load) :
    ∃ bs n o, listing sc replies partitions = bs.map Persisted.key ∧ (∀ b ∈ bs, keyBinding b.key =
      .ok b.load) ∧ Stops tell sent.length bs n ∧ loadBindings sc replies tell partitions sent = .ok
      o ∧ o.sent = sent ++ (bs.take n).map Persisted.load ∧ (n < bs.length → o.err = none) ∧ (n =
      bs.length → o.err = none → ∀ p ∈ partitions, ∃ reply, replies p = .ok reply) := by
  induction partitions generalizing sent with
  | nil =>
    exact ⟨[], 0, ⟨sent, none⟩, rfl, by simp, ⟨le_rfl, by simp, by simp⟩, rfl, by simp, by simp,
      by simp⟩
  | cons p partitions ih =>
    cases hp : replies p with
    | error err =>
      refine ⟨[], 0, ⟨sent, some err⟩, by simp [listing, hp], by simp,
        ⟨le_rfl, by simp, by simp⟩, by simp [loadBindings, hp], by simp, by simp, by simp⟩
    | ok reply =>
      obtain ⟨bs, hkeys, hbs⟩ := hlists p List.mem_cons_self reply hp
      obtain ⟨n, hn, hrun⟩ := loadKeys_spec tell hbs sent
      have hrest := fun sent => ih (fun q hq => hlists q (List.mem_cons_of_mem p hq)) sent
      have hlisting : listing sc replies (p :: partitions) =
          bs.map Persisted.key ++ listing sc replies partitions := by
        simp [listing, hp, hkeys, Except.toOption]
      by_cases hend : n = bs.length
      · -- Every key of this partition is sent, and the loop goes on.
        subst hend
        obtain ⟨bs', n', o, hlisting', hbs', hn', hrun', hsent, herr, hall⟩ :=
          hrest (sent ++ bs.map Persisted.load)
        rw [List.length_append, List.length_map] at hn'
        refine ⟨bs ++ bs', bs.length + n', o, by rw [hlisting, hlisting', List.map_append],
          List.forall_mem_append.mpr ⟨hbs, hbs'⟩, hn.append hn', ?_, ?_, ?_, ?_⟩
        · simpa [loadBindings, hp, hkeys, hrun, bind, Except.bind] using hrun'
        · rw [hsent, List.take_length_add_append, List.map_append, List.append_assoc]
        · intro hlt
          rw [List.length_append] at hlt
          exact herr (by omega)
        intro hlen hnone q hq
        rw [List.length_append] at hlen
        cases List.mem_cons.mp hq with
        | inl heq => exact ⟨reply, heq ▸ hp⟩
        | inr hmem => exact hall (by omega) hnone q hmem
      · -- The function returns from within the inner loop.
        obtain ⟨bs', -, -, hlisting', hbs', -⟩ := hrest []
        have hlt : n < bs.length := lt_of_le_of_ne hn.le_length hend
        refine ⟨bs ++ bs', n, ⟨sent ++ (bs.take n).map Persisted.load, none⟩,
          by rw [hlisting, hlisting', List.map_append], List.forall_mem_append.mpr ⟨hbs, hbs'⟩,
          hn.append_left hlt, ?_, ?_, fun _ => rfl, ?_⟩
        · simp [loadBindings, hp, hkeys, hrun, hend, bind, Except.bind, pure, Except.pure]
        · rw [List.take_append_of_le_length hn.le_length]
        · intro hlen
          rw [List.length_append] at hlen
          omega

/-- A listing of plain bindings. -/
theorem lists_of_plain {bindings : List Persisted} {db : Db} {p : Int32}
    (hplain : ∀ b ∈ bindings, b.Plain appName)
    (hown : ∀ key ∈ db, Glob.glob (Persisted.pattern appName p) key = true →
      ∃ b ∈ bindings, key = mangleKey appName b.key)
    (hreplies : ∀ reply, replies p = .ok reply → KeysReply db (Persisted.pattern appName p) reply) :
    Lists (redisConfig appName) replies p := by
  intro reply hp
  have hreply := hreplies reply hp
  obtain ⟨ks, hks⟩ := exists_keys hreply
  have hkey : ∀ k ∈ ks, k ∈ Set.range fun b : {b // b ∈ bindings} => b.val.key := by
    intro k hk
    obtain ⟨x, hx, hunmangle⟩ := (mem_of_mapM_eq_ok hks k).mp hk
    obtain ⟨hmem, hglob⟩ := (hreply.mem_iff x).mp hx
    obtain ⟨b, hb, rfl⟩ := hown x hmem hglob
    have hsame : unmangleKey appName (mangleKey appName b.key) = .ok k := hunmangle
    rw [unmangleKey_mangleKey (hplain b hb).application, Except.ok.injEq] at hsame
    exact ⟨⟨b, hb⟩, hsame⟩
  obtain ⟨bs, rfl⟩ : ks ∈ Set.range (List.map fun b : {b // b ∈ bindings} => b.val.key) := by
    rw [Set.range_list_map]
    exact hkey
  refine ⟨bs.map Subtype.val, by rw [List.map_map]; exact hks, fun b hb => ?_⟩
  obtain ⟨b', -, rfl⟩ := List.mem_map.mp hb
  have hb' := hplain b'.val b'.property
  exact b'.val.keyBinding_key_iff.mpr ⟨hb'.actorType, hb'.actorID, hb'.id⟩

/-- **Persisted bindings are found again.**  Every binding is listed and its key is taken apart, and
`loadBindings` returns without an error only if it has sent all of them, exactly if no name has a
separator and no `LoadBinding` fails while one is left to be sent. -/
theorem bindings_found_iff (appName : String) (bindings : List Persisted) (db : Db)
    (partitions : List Int32) (replies : Int32 → Except String (List String))
    (tell : Nat → Option String) (hstored : ∀ b ∈ bindings, mangleKey appName b.key ∈ db)
    (hown : ∀ p ∈ partitions, ∀ key ∈ db, Glob.glob (Persisted.pattern appName p) key = true →
      ∃ b ∈ bindings, key = mangleKey appName b.key)
    (hreplies : ∀ p ∈ partitions, ∀ reply, replies p = .ok reply →
      KeysReply db (Persisted.pattern appName p) reply) :
    ((∀ b ∈ bindings, b.Found appName db) ∧
        ∃ o, loadBindings (redisConfig appName) replies tell partitions [] = .ok o ∧
          (o.err = none → ∀ b ∈ bindings, b.partition ∈ partitions → b.load ∈ o.sent)) ↔
      (∀ b ∈ bindings, b.Plain appName) ∧
        ∀ i < (listing (redisConfig appName) replies partitions).length, tell i ≠ none →
          ∀ b ∈ bindings, b.partition ∈ partitions →
            b.key ∈ (listing (redisConfig appName) replies partitions).take i := by
  have hfound := forall₂_congr fun b hb => Persisted.found_iff_plain (hstored b hb)
  rw [hfound]
  refine and_congr_right fun hplain => ?_
  obtain ⟨bs, n, o, hlisting, hbs, hn, hrun, hsent, herr, hall⟩ := loadBindings_spec tell
    (fun p hp => lists_of_plain hplain (hown p hp) (hreplies p hp)) []
  rw [hlisting, List.length_map]
  constructor
  · intro h i hi htell b hb hp
    obtain ⟨o', hrun', hcomplete⟩ := h
    rw [hrun, Except.ok.injEq] at hrun'
    subst hrun'
    -- The loop has stopped at the failure or before it.
    have hni : n ≤ i := by
      by_contra hlt
      have htold := hn.told i (by omega)
      rw [List.length_nil, Nat.zero_add] at htold
      exact htell htold
    have hload := hcomplete (herr (by omega)) b hb hp
    rw [hsent, List.nil_append, List.mem_map_of_injective Persisted.load_injective] at hload
    rw [← List.map_take]
    exact List.mem_map_of_mem (List.take_subset_take_left bs hni hload)
  · intro h
    refine ⟨o, hrun, fun hnone b hb hp => ?_⟩
    have hkey : b.key ∈ (bs.map Persisted.key).take n := by
      by_cases hlt : n < bs.length
      · exact h n hlt (by simpa using hn.failed hlt) b hb hp
      · have hend : n = bs.length := by
          have hle := hn.le_length
          omega
        obtain ⟨reply, hreply⟩ := hall hend hnone b.partition hp
        obtain ⟨ks, hks, hmem, -⟩ := hfound.mpr hplain b hb reply (hreplies _ hp reply hreply)
        rw [hend, List.take_of_length_le (by rw [List.length_map]), ← hlisting]
        exact mem_listing (hall hend hnone) hp hreply hks hmem
    rw [← List.map_take] at hkey
    obtain ⟨b', hb', hsame⟩ := List.mem_map.mp hkey
    have hdecode := hbs b' (List.mem_of_mem_take hb')
    have hb := hplain b hb
    rw [hsame, b.keyBinding_key_iff.mpr ⟨hb.actorType, hb.actorID, hb.id⟩, Except.ok.injEq] at hdecode
    rw [hsent, List.nil_append, hdecode]
    exact List.mem_map_of_mem hb'

/-- A reminder of a clock. -/
private def bell (id : String) : Persisted := ⟨.reminders, ⟨"Clock", "c"⟩, 0, id⟩

/-- The key of the reminder in the store. -/
private def bellKey (id : String) : String := mangleKey "shop" (bell id).key

/-- A reminder is found again after a restart. -/
theorem bell_found :
    (bell "r").Found "shop" (single (bellKey "r")) ∧
      ∃ o, loadBindings (redisConfig "shop") (fun _ => .ok [bellKey "r"]) (fun _ => none) [0] [] = .ok o ∧
        (o.err = none → (bell "r").load ∈ o.sent) := by
  have hglob : Glob.glob (Persisted.pattern "shop" 0) (bellKey "r") = true := by decide +kernel
  have h := (bindings_found_iff "shop" [bell "r"] (single (bellKey "r")) [0]
    (fun _ => .ok [bellKey "r"]) (fun _ => none) ?_ ?_ ?_).mpr ⟨?_, ?_⟩
  · obtain ⟨hfound, o, hrun, hsent⟩ := h
    exact ⟨hfound _ List.mem_cons_self, o, hrun,
      fun hnone => hsent hnone _ List.mem_cons_self List.mem_cons_self⟩
  · intro b hb
    rw [List.mem_singleton.mp hb]
    exact mem_single.mpr rfl
  · intro p _ key hkey _
    exact ⟨bell "r", List.mem_cons_self, mem_single.mp hkey⟩
  · intro p hp reply hreply
    rw [← Except.ok.inj hreply, List.mem_singleton.mp hp]
    exact keysReply_single hglob
  · intro b hb
    rw [List.mem_singleton.mp hb]
    exact ⟨by decide, hglob, by decide, by decide, by decide⟩
  · intro i _ htell
    exact absurd rfl htell

/-- A reminder whose id has a separator is loaded under another id, and a `LoadBinding` that fails
leaves a reminder out although no error is returned. -/
theorem bell_lost :
    keyBinding (bell "a_b").key = .ok (bell "a").load ∧
      loadBindings (redisConfig "shop") (fun _ => .ok [bellKey "r", bellKey "s"])
        (fun n => if n = 1 then some "context canceled" else none) [0] [] =
        .ok ⟨[(bell "r").load], none⟩ :=
  ⟨by decide +kernel, by decide +kernel⟩

end Kar.Bindings
