import Kar.Bindings.Operations

/-!
# Bindings after a restart

A binding is written to the store as a hash, and after a restart it is read from the hash again.
`putBinding` adds the fields of the new binding to the hash that is there.  A field that the new
binding does not have stays, and the binding that is read has it.  `Keeps` is what the hash has to
look like before the put, such that the binding that is read is the one that was put.
-/

namespace Kar.Bindings

open Kar.Lib Kar.Store Kar.Runtime

/-- The hash that is stored under a key. -/
def storedHash (db : Db) (key : String) : StateHash :=
  match db.lookup key with
  | some (.hash h) => h
  | _ => ∅

/-- What a restarted node makes of the hash under a key. -/
def Reloads {σ β : Type} (B : Collection σ β) (sc : StoreConfig) (actor : Actor) (id key : String)
    (db : Db) (b : β) : Prop :=
  ∃ h, hGetAll db (sc.mangleKey key) = .ok h ∧ h.pairs ≠ [] ∧ B.load actor id key h = .ok b

/-- The fields of a hash that a new binding does not overwrite are read as the new binding has them. -/
def Kind.Keeps (c : Codec) : (kind : Kind) → StateHash → String → kind.Binding → Prop
  | .reminders, h, _, r =>
    (r.period > 0 ∨ ReminderQueue.readPeriod c h = .ok r.period) ∧
      (r.encodedData ≠ "" ∨ (h.lookup "encodedData").getD "" = "")
  | .subscriptions, h, payload, _ =>
    ∃ m, c.unmarshalMap payload = .ok m ∧ (m.pairs ≠ [] ∨ h.pairs ≠ []) ∧
      (∀ f ∈ ["path", "topic", "group", "contentType"], f ∈ m ∨ (h.lookup f).getD "" = "") ∧
      ("offsetOldest" ∈ m ∨ (h.lookup "offsetOldest").getD "" ≠ "true")

/-! ## Reminders -/

variable {id key payload : String} {h m h' : StateHash}

namespace ReminderQueue

/-- The fields of a persisted reminder. -/
theorem lookup_persistReminder (c : Codec) (r : Reminder) (f : String) :
    (persistReminder c r).lookup f = if f = "encodedData" then (if r.encodedData ≠ "" then some
      r.encodedData else none) else if f = "period" then (if r.period > 0 then some
      (c.durationString r.period) else none) else (GoMap.ofList [("actorType", r.actor.type),
      ("actorId", r.actor.id), ("id", r.id), ("path", r.path), ("targetTime", c.marshalTime
      r.targetTime)]).get? f := by
  rw [persistReminder, Hash.lookup_ofList, GoMap.get?_ofList_append, GoMap.get?_ofList_append]
  by_cases hdata : f = "encodedData"
  · split <;> split <;> simp_all [GoMap.get?_ofList_cons]
  · by_cases hperiod : f = "period"
    · split <;> split <;> simp_all [GoMap.get?_ofList_cons]
    · split <;> split <;> simp_all [GoMap.get?_ofList_cons]

variable {c : Codec} {r : Reminder}

theorem readPeriod_merged
    (hmerged : ∀ f, h'.lookup f = ((persistReminder c r).lookup f).or (h.lookup f)) :
    readPeriod c h' = .ok r.period ↔ r.period > 0 ∨ readPeriod c h = .ok r.period := by
  have hfield := hmerged "period"
  rw [lookup_persistReminder, if_neg (by decide), if_pos rfl] at hfield
  unfold readPeriod
  rw [hfield]
  by_cases hperiod : r.period > 0
  · simp [hperiod, c.parseDuration_durationString r.period hperiod]
  · simp [hperiod]

/-- A reminder is read from the hash that it is written to exactly if the hash keeps it. -/
theorem load_merged (hparse : parse c actor id key payload = .ok (r, persistReminder c r))
    (hmerged : ∀ f, h'.lookup f = ((persistReminder c r).lookup f).or (h.lookup f)) :
    load c key h' = .ok r ↔ Kind.reminders.Keeps c h payload r := by
  have hfield : ∀ f ≠ "encodedData", f ≠ "period" → h'.lookup f =
      ((GoMap.ofList [("actorType", r.actor.type), ("actorId", r.actor.id), ("id", r.id),
        ("path", r.path), ("targetTime", c.marshalTime r.targetTime)]).get? f).or (h.lookup f) := by
    intro f hdata hperiod
    rw [hmerged, lookup_persistReminder, if_neg hdata, if_neg hperiod]
  have htime : c.unmarshalTime ((h'.lookup "targetTime").getD "") = .ok r.targetTime := by
    obtain ⟨data, period, hdata, -, hr, -⟩ := (parse_eq_ok c).mp hparse
    rw [hfield _ (by decide) (by decide), hr]
    exact c.unmarshalTime_marshalTime payload data hdata
  have hkey : r.key = key := by
    obtain ⟨data, period, -, -, hr, -⟩ := (parse_eq_ok c).mp hparse
    rw [hr]
  have hdata : r.encodedData = (h'.lookup "encodedData").getD "" ↔
      r.encodedData ≠ "" ∨ (h.lookup "encodedData").getD "" = "" := by
    rw [hmerged, lookup_persistReminder, if_pos rfl]
    by_cases hempty : r.encodedData = ""
    · simp [hempty, @eq_comm _ ""]
    · simp [hempty]
  rw [load_eq_ok, readPeriod_merged hmerged, hdata]
  constructor
  · intro hload
    exact ⟨hload.2.1, hload.2.2.2.2.2.2⟩
  intro hkeeps
  refine ⟨htime, hkeeps.1, ?_, ?_, hkey, ?_, hkeeps.2⟩
  · rw [hfield _ (by decide) (by decide), hfield _ (by decide) (by decide)]
    rfl
  · rw [hfield _ (by decide) (by decide)]
    rfl
  · rw [hfield _ (by decide) (by decide)]
    rfl

theorem persistReminder_ne_nil : (persistReminder c r).pairs ≠ [] := by
  intro hnil
  have hfield := pairs_eq_nil_iff.mp hnil "id"
  rw [lookup_persistReminder] at hfield
  simp [GoMap.get?_ofList_cons] at hfield

end ReminderQueue

/-! ## Event sources -/

/-- A field is read as the new map has it. -/
theorem getD_or_iff :
    ((m.lookup f).or (h.lookup f)).getD "" = (m.lookup f).getD "" ↔
      f ∈ m ∨ (h.lookup f).getD "" = "" := by
  rw [← AList.lookup_isSome]
  cases m.lookup f <;> simp

theorem offsetOldest_or_iff :
    (((m.lookup f).or (h.lookup f)).getD "" = "true" ↔ (m.lookup f).getD "" = "true") ↔
      f ∈ m ∨ (h.lookup f).getD "" ≠ "true" := by
  rw [← AList.lookup_isSome]
  cases m.lookup f <;> simp

/-- A subscription is read from the hash that it is written to exactly if its fields are kept. -/
theorem Sources.load_merged (hmerged : ∀ f, h'.lookup f = (m.lookup f).or (h.lookup f)) :
    Sources.load actor id key h' = Sources.load actor id key m ↔ (∀ f ∈ ["path", "topic", "group",
      "contentType"], f ∈ m ∨ (h.lookup f).getD "" = "") ∧ ("offsetOldest" ∈ m ∨ (h.lookup
      "offsetOldest").getD "" ≠ "true") := by
  simp only [Sources.load, hmerged, Source.mk.injEq, true_and, getD_or_iff, decide_eq_decide,
    offsetOldest_or_iff, List.mem_cons, List.not_mem_nil, or_false, forall_eq_or_imp, forall_eq,
    and_assoc]

/-! ## Both kinds -/

/-- What is under a key when `HSET` succeeds. -/
theorem hGetAll_of_hSetAll (hset : hSetAll db key m = .ok db') :
    (∃ h', hGetAll db' key = .ok h' ∧ ∀ f, h'.lookup f = (m.lookup f).or ((storedHash db key).lookup
        f)) ∨ m.pairs = [] ∧ (storedHash db key).pairs = [] ∧ ∀ h', hGetAll db' key ≠ .ok h' := by
  cases hlookup : db.lookup key with
  | none =>
    have hstored : storedHash db key = ∅ := by rw [storedHash, hlookup]
    left
    rw [hstored]
    exact hGetAll_hSetAll (by rw [hGetAll, hlookup]) hset
  | some v =>
    cases v with
    | hash h =>
      have hstored : storedHash db key = h := by rw [storedHash, hlookup]
      left
      rw [hstored]
      exact hGetAll_hSetAll (by rw [hGetAll, hlookup]) hset
    | text =>
      right
      have hstored : storedHash db key = ∅ := by rw [storedHash, hlookup]
      unfold hSetAll at hset
      split at hset
      · rename_i hnil
        cases hset
        refine ⟨hnil, by rw [hstored]; rfl, fun h' hget => ?_⟩
        rw [hGetAll, hlookup] at hget
        simp [doRaw, Except.mapError] at hget
      · simp [Db.onHash, hlookup, Except.map] at hset

/-- A hash with the fields of two hashes is empty if both are. -/
theorem merged_ne_nil_iff (hmerged : ∀ f, h'.lookup f = (m.lookup f).or (h.lookup f)) :
    h'.pairs ≠ [] ↔ m.pairs ≠ [] ∨ h.pairs ≠ [] := by
  rw [← not_and_or, not_iff_not]
  simp [pairs_eq_nil_iff, hmerged, forall_and]

theorem reloads_iff (hget : hGetAll db (sc.mangleKey key) = .ok h) :
    Reloads B sc actor id key db b ↔ h.pairs ≠ [] ∧ B.load actor id key h = .ok b := by
  constructor
  · intro hreloads
    obtain ⟨h', hget', hreload⟩ := hreloads
    rw [hget, Except.ok.injEq] at hget'
    rwa [hget']
  · intro hload
    exact ⟨h, hget, hload⟩

/-- The maps of a payload and of the binding that is parsed. -/
theorem Kind.load_iff_keeps (c : Codec) (kind : Kind) {b : kind.Binding}
    (hparse : (kind.collection c).parse actor id key payload = .ok (b, m))
    (hmerged : ∀ f, h'.lookup f = (m.lookup f).or (h.lookup f)) :
    h'.pairs ≠ [] ∧ (kind.collection c).load actor id key h' = .ok b ↔ kind.Keeps c h payload b := by
  cases kind with
  | reminders =>
    have hm : m = ReminderQueue.persistReminder c b := by
      obtain ⟨data, period, -, -, -, hm⟩ := (ReminderQueue.parse_eq_ok c).mp hparse
      exact hm
    rw [merged_ne_nil_iff hmerged]
    subst hm
    rw [← ReminderQueue.load_merged hparse hmerged]
    exact and_iff_right (Or.inl (ReminderQueue.persistReminder_ne_nil))
  | subscriptions =>
    obtain ⟨hunmarshal, hb⟩ := Sources.parse_eq_ok.mp hparse
    rw [merged_ne_nil_iff hmerged]
    have hload : ((Kind.subscriptions.collection c).load actor id key h' = .ok b) ↔
        Sources.load actor id key h' = Sources.load actor id key m := by
      rw [← hb]
      exact ⟨Except.ok.inj, congrArg Except.ok⟩
    rw [hload, Sources.load_merged hmerged]
    constructor
    · intro hkeeps
      exact ⟨m, hunmarshal, hkeeps⟩
    · intro hkeeps
      obtain ⟨m', hunmarshal', hkeeps⟩ := hkeeps
      rw [hunmarshal, Except.ok.injEq] at hunmarshal'
      rwa [hunmarshal']

/-- A binding is never kept if there is nothing to read. -/
theorem Kind.not_keeps (c : Codec) (kind : Kind) {b : kind.Binding}
    (hparse : (kind.collection c).parse actor id key payload = .ok (b, m)) (hm : m.pairs = [])
    (hh : h.pairs = []) : ¬ kind.Keeps c h payload b := by
  have hmerged : ∀ f, h.lookup f = (m.lookup f).or (h.lookup f) := by
    intro f
    rw [pairs_eq_nil_iff.mp hm f]
    rfl
  rw [← kind.load_iff_keeps c hparse hmerged]
  exact fun hload => hload.1 hh

/-- **After a restart.**  The binding that is read from the store after a successful put is the one that
the put has left in memory exactly if the hash before the put keeps it. -/
theorem reloaded_iff_kept (c : Codec) (app : String) (kind : Kind) (actor : Actor)
    (id payload : String) (reply : List String) (subscribed : Subscribed) (mem : kind.Memory) (db : Db)
    (o : Outcome kind.Memory (Except (Nat × String) Nat)) (code : Nat) (b : kind.Binding)
    (hput : putBinding (kind.collection c) (redisConfig app) kind.name actor id payload reply subscribed
      mem db = .ok o) (hdone : o.result = .ok code)
    (hb : b ∈ (kind.collection c).find o.mem actor id) :
    Reloads (kind.collection c) (redisConfig app) actor id ((kind.collection c).key b) o.db b ↔
      kind.Keeps c (storedHash db ((redisConfig app).mangleKey ((kind.collection c).key b))) payload b := by
  have hB := kind.lawful c
  obtain ⟨ks, -, hreturns⟩ := putBinding_returns hput
  cases hreturns with
  | rejected => simp at hdone
  | failed => simp at hdone
  | @done b' _ _ hparse hadd hset =>
    have heq : b = b' := hB.eq_of_find_put hparse hadd hb
    subst heq
    obtain ⟨-, -, hkey⟩ := hB.parsed _ _ _ _ _ _ hparse
    rw [← hkey] at hparse hset
    rcases hGetAll_of_hSetAll hset with ⟨h', hget, hmerged⟩ | ⟨hm, hh, hnone⟩
    · rw [reloads_iff hget, kind.load_iff_keeps c hparse hmerged]
    · constructor
      · intro hreloads
        obtain ⟨h', hget, -⟩ := hreloads
        exact absurd hget (hnone h')
      · intro hkeeps
        exact absurd hkeeps (kind.not_keeps c hparse hm hh)

/-- A reminder of one actor. -/
private def clockReminder (period : Int) : Reminder :=
  ⟨⟨"Clock", "c"⟩, "r", "binding_0_reminders_Clock_c_r", "/ring", 0, period, ""⟩

/-- A put for the reminder. -/
private def putClock (payload : String) (reply : List String) (mem : ReminderQueue) (db : Db) :
    Except String (Outcome ReminderQueue (Except (Nat × String) Nat)) :=
  putBinding (reminders plainCodec) (redisConfig "shop") "reminders" ⟨"Clock", "c"⟩ "r" payload reply
    .ok mem db

/-- The put of a new reminder is read back. -/
theorem new_reminder_reloaded :
    ∃ o, putClock "sssss" [] [] ∅ = .ok o ∧ o.result = .ok 204 ∧
      o.mem.find ⟨"Clock", "c"⟩ "r" = [clockReminder 5] ∧
      Reloads (reminders plainCodec) (redisConfig "shop") ⟨"Clock", "c"⟩ "r" (clockReminder 5).key o.db
        (clockReminder 5) := by
  obtain ⟨o, hput, ho⟩ : ∃ o, putClock "sssss" [] [] ∅ = .ok o ∧
      (o.result, o.mem.find ⟨"Clock", "c"⟩ "r") = (.ok 204, [clockReminder 5]) :=
    exists_ok_of_map (by decide +kernel)
  obtain ⟨hdone, hfind⟩ := Prod.mk.inj ho
  refine ⟨o, hput, hdone, hfind, ?_⟩
  refine (reloaded_iff_kept plainCodec "shop" .reminders ⟨"Clock", "c"⟩ "r" "sssss" [] .ok [] ∅ o 204
    (clockReminder 5) hput hdone ?_).mpr ⟨Or.inl (by decide), Or.inr (by decide +kernel)⟩
  show clockReminder 5 ∈ o.mem.find ⟨"Clock", "c"⟩ "r"
  rw [hfind]
  exact List.mem_singleton_self _

/-- A periodic reminder is put again without a period.  It is one-shot in memory and periodic after a
restart. -/
theorem dropped_period_reloaded :
    ∃ o o', putClock "sssss" [] [] ∅ = .ok o ∧
      putClock "" ["kar_shop_binding_0_reminders_Clock_c_r"] o.mem o.db = .ok o' ∧
      o'.result = .ok 200 ∧ o'.mem.find ⟨"Clock", "c"⟩ "r" = [clockReminder 0] ∧
      Reloads (reminders plainCodec) (redisConfig "shop") ⟨"Clock", "c"⟩ "r" (clockReminder 0).key o'.db
        (clockReminder 5) := by
  obtain ⟨o, hput, ho⟩ : ∃ o, putClock "sssss" [] [] ∅ = .ok o ∧
      ((putClock "" ["kar_shop_binding_0_reminders_Clock_c_r"] o.mem o.db).toOption.map fun o' =>
        (decide (o'.result = .ok 200 ∧ o'.mem.find ⟨"Clock", "c"⟩ "r" = [clockReminder 0]),
          (hGetAll o'.db (mangleKey "shop" (clockReminder 0).key)).toOption.map fun h =>
            (decide (h.pairs = []), ReminderQueue.load plainCodec (clockReminder 0).key h))) =
        some (true, some (false, .ok (clockReminder 5))) :=
    exists_ok_of_map (by decide +kernel)
  obtain ⟨o', hput', ho'⟩ := exists_ok_of_map ho
  obtain ⟨hdone, hget⟩ := Prod.mk.inj ho'
  obtain ⟨hdone, hfind⟩ := of_decide_eq_true hdone
  obtain ⟨h, hget, hh⟩ := exists_ok_of_map hget
  obtain ⟨hpairs, hload⟩ := Prod.mk.inj hh
  exact ⟨o, o', hput, hput', hdone, hfind, h, hget, of_decide_eq_false hpairs, hload⟩

end Kar.Bindings
