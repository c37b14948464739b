import Kar.Bindings.Reminders
import Kar.Store.Commands

/-!
# Collections of bindings

The interface `bindings` of `core/internal/runtime/bindings.go` and its two implementations: the
reminders of `core/internal/runtime/reminders.go` and the event sources of
`core/internal/runtime/events.go`.  The functions of the libraries that read and write payloads,
times and durations are in a `Codec`, with what their documentation promises.

`Lawful` says what the functions of a collection do to the bindings that are active in it.  It holds
for both implementations, so that what is built on the interface is proved once.
-/

namespace Kar.Bindings

open Kar.Lib Kar.Store List

/-! ## Payloads -/

/-- `scheduleReminderPayload`, with the data as JSON. -/
structure ScheduleReminderPayload where
  path : String
  targetTime : Int
  period : String
  data : Option String
  deriving DecidableEq, Repr

structure Codec where
  /-- `json.Unmarshal` into a `scheduleReminderPayload` -/
  unmarshalReminder : String → Except String ScheduleReminderPayload
  /-- `json.Unmarshal` into a `map[string]string` -/
  unmarshalMap : String → Except String StateHash
  parseDuration : String → Except String Int
  durationString : Int → String
  /-- `MarshalText` of a time -/
  marshalTime : Int → String
  /-- `UnmarshalText` of a time -/
  unmarshalTime : String → Except String Int
  parseDuration_durationString : ∀ d, 0 < d → parseDuration (durationString d) = .ok d
  /-- The times of payloads have a text. -/
  unmarshalTime_marshalTime : ∀ payload p, unmarshalReminder payload = .ok p →
    unmarshalTime (marshalTime p.targetTime) = .ok p.targetTime

/-- A codec for short texts: the payload of a reminder is its period, a number in unary, and the
payload of a subscription is its topic. -/
def plainCodec : Codec where
  unmarshalReminder payload := .ok ⟨"/ring", 0, payload, none⟩
  unmarshalMap payload := .ok (Hash.ofList [("path", "/event"), ("topic", payload)])
  parseDuration s := .ok s.toList.length
  durationString d := String.ofList (List.replicate d.toNat 's')
  marshalTime t := String.ofList (List.replicate t.toNat 's')
  unmarshalTime s := .ok s.toList.length
  parseDuration_durationString d hd := by
    rw [String.toList_ofList, List.length_replicate, Int.toNat_of_nonneg hd.le]
  unmarshalTime_marshalTime payload p hp := by
    cases hp
    rfl

/-! ## Event sources -/

/-- `source`, without its goroutine. -/
structure Source where
  actor : Actor
  id : String
  key : String
  path : String
  topic : String
  group : String
  contentType : String
  offsetOldest : Bool
  deriving DecidableEq, Repr

/-- `sources`: the map from actors to maps from ids is one map from both. -/
structure Sources where
  map : Hash (Actor × String) Source
  keyed : ∀ p s, map.lookup p = some s → p = (s.actor, s.id)

/-- What `rpc.Subscribe` returns. -/
inductive Subscribed where
  | ok
  | canceled
  | failed (err : String)
  deriving DecidableEq, Repr

/-- The code and the error that `subscribe` returns. -/
def Subscribed.result : Subscribed → Except (Nat × String) Unit
  | .ok => .ok ()
  | .canceled => .error (503, "context canceled")
  | .failed err => .error (500, err)

namespace Sources

def empty : Sources := ⟨∅, fun p s h => by simp at h⟩

/-- `c[s.Actor][s.ID] = s` -/
def insert (c : Sources) (s : Source) : Sources where
  map := c.map.insert (s.actor, s.id) s
  keyed p s' h := by
    by_cases hp : p = (s.actor, s.id)
    · rw [hp, AList.lookup_insert, Option.some.injEq] at h
      rw [hp, h]
    · rw [AList.lookup_insert_ne hp] at h
      exact c.keyed p s' h

/-- The map without some of its keys. -/
def delete (c : Sources) (ps : List (Actor × String)) : Sources where
  map := (c.map.remove ps).1
  keyed p s h := by
    rw [Hash.lookup_remove] at h
    split at h
    · simp at h
    exact c.keyed p s h

def add (subscribed : Subscribed) (c : Sources) (s : Source) : Sources × Except (Nat × String) Unit :=
  match subscribed.result with
  | .error f => (c, .error f)
  | .ok () => (c.insert s, .ok ())

def find (c : Sources) (actor : Actor) (id : String) : List Source :=
  if id ≠ "" then (c.map.lookup (actor, id)).toList
  else (c.map.pairs.filter fun p => p.1.1 = actor).map Prod.snd

def cancel (c : Sources) (actor : Actor) (id : String) : Sources × List Source :=
  if id ≠ "" then (c.delete [(actor, id)], (c.map.lookup (actor, id)).toList)
  else (c.delete ((c.map.pairs.filter fun p => p.1.1 = actor).map Prod.fst),
    (c.map.pairs.filter fun p => p.1.1 = actor).map Prod.snd)

def load (actor : Actor) (id key : String) (m : StateHash) : Source where
  actor := actor
  id := id
  key := key
  path := (m.lookup "path").getD ""
  topic := (m.lookup "topic").getD ""
  group := (m.lookup "group").getD ""
  contentType := (m.lookup "contentType").getD ""
  offsetOldest := (m.lookup "offsetOldest").getD "" = "true"

def parse (c : Codec) (actor : Actor) (id key payload : String) : Except String (Source × StateHash) :=
  (c.unmarshalMap payload).map fun m => (load actor id key m, m)

end Sources

/-! ## Reminders -/

namespace ReminderQueue

def persistReminder (c : Codec) (r : Reminder) : StateHash :=
  Hash.ofList ([("actorType", r.actor.type), ("actorId", r.actor.id), ("id", r.id), ("path", r.path),
      ("targetTime", c.marshalTime r.targetTime)] ++
    (if r.period > 0 then [("period", c.durationString r.period)] else []) ++
    (if r.encodedData ≠ "" then [("encodedData", r.encodedData)] else []))

/-- How the period is read from a hash. -/
def readPeriod (c : Codec) (rMap : StateHash) : Except String Int :=
  match rMap.lookup "period" with
  | some ps => c.parseDuration ps
  | none => .ok 0

def load (c : Codec) (key : String) (rMap : StateHash) : Except String Reminder := do
  let targetTime ← c.unmarshalTime ((rMap.lookup "targetTime").getD "")
  let period ← readPeriod c rMap
  return {
    actor := ⟨(rMap.lookup "actorType").getD "", (rMap.lookup "actorId").getD ""⟩
    id := (rMap.lookup "id").getD ""
    key := key
    path := (rMap.lookup "path").getD ""
    targetTime := targetTime
    period := period
    encodedData := (rMap.lookup "encodedData").getD "" }

/-- How the period is read from a payload. -/
def parsePeriod (c : Codec) (period : String) : Except String Int :=
  if period ≠ "" then c.parseDuration period else .ok 0

def parse (c : Codec) (actor : Actor) (id key payload : String) :
    Except String (Reminder × StateHash) := do
  let data ← c.unmarshalReminder payload
  let period ← parsePeriod c data.period
  let r : Reminder := {
    actor := actor
    id := id
    key := key
    path := data.path
    targetTime := data.targetTime
    period := period
    encodedData := data.data.getD "" }
  return (r, persistReminder c r)

end ReminderQueue

/-! ## The interface -/

/-- The interface `bindings`, over collections of type `σ` and bindings of type `β`. -/
structure Collection (σ β : Type) where
  actor : β → Actor
  id : β → String
  /-- `k()`: the cached key of the store. -/
  key : β → String
  add : Subscribed → σ → β → σ × Except (Nat × String) Unit
  cancel : σ → Actor → String → σ × List β
  find : σ → Actor → String → List β
  parse : Actor → String → String → String → Except String (β × StateHash)
  load : Actor → String → String → StateHash → Except String β

def reminders (c : Codec) : Collection ReminderQueue Reminder where
  actor := Reminder.actor
  id := Reminder.id
  key := Reminder.key
  add _ rq r := (rq.add r, .ok ())
  cancel := ReminderQueue.cancel
  find := ReminderQueue.find
  parse := ReminderQueue.parse c
  load _ _ := ReminderQueue.load c

def subscriptions (c : Codec) : Collection Sources Source where
  actor := Source.actor
  id := Source.id
  key := Source.key
  add := Sources.add
  cancel := Sources.cancel
  find := Sources.find
  parse := Sources.parse c
  load actor id key m := .ok (Sources.load actor id key m)

/-! ## What the functions do -/

/-- Whether an actor and an id select a binding; no id stands for all ids. -/
def Collection.Selects {σ β : Type} (B : Collection σ β) (actor : Actor) (id : String) (b : β) : Prop :=
  B.actor b = actor ∧ (id = "" ∨ B.id b = id)

instance {σ β : Type} (B : Collection σ β) (actor : Actor) (id : String) (b : β) :
    Decidable (B.Selects actor id b) := inferInstanceAs (Decidable (_ ∧ _))

/-- What the functions of a collection do to its active bindings, whose order is left open. -/
structure Lawful {σ β : Type} (B : Collection σ β) (active : σ → List β) : Prop where
  find : ∀ s actor id, (B.find s actor id).Perm ((active s).filter fun b => B.Selects actor id b)
  cancelled : ∀ s actor id,
    (B.cancel s actor id).2.Perm ((active s).filter fun b => B.Selects actor id b)
  remaining : ∀ s actor id,
    (active (B.cancel s actor id).1).Perm ((active s).filter fun b => ¬ B.Selects actor id b)
  added : ∀ subscribed s b, (B.add subscribed s b).2 = .ok () →
    (∀ b' ∈ active s, ¬ (B.actor b' = B.actor b ∧ B.id b' = B.id b)) →
    (active (B.add subscribed s b).1).Perm (b :: active s)
  not_added : ∀ subscribed s b f, (B.add subscribed s b).2 = .error f →
    (active (B.add subscribed s b).1).Perm (active s)
  parsed : ∀ actor id key payload b m, B.parse actor id key payload = .ok (b, m) →
    B.actor b = actor ∧ B.id b = id ∧ B.key b = key
  /-- Whether a payload is rejected depends on the payload only. -/
  rejected : ∀ actor id key payload err, B.parse actor id key payload = .error err →
    ∀ actor' id' key', B.parse actor' id' key' payload = .error err
  loaded : ∀ actor id key m b, B.load actor id key m = .ok b → B.key b = key

variable {id key : String}

/-- What is cancelled is what is found. -/
theorem Lawful.mem_cancel (hB : Lawful B active)
    :
    b ∈ (B.cancel s actor id).2 ↔ b ∈ B.find s actor id :=
  ((hB.cancelled s actor id).trans (hB.find s actor id).symm).mem_iff

namespace ReminderQueue

theorem selects_iff (actor : Actor) (id : String) (e : ReminderEntry) :
    selects actor id e = true ↔
      e.cancelled = false ∧ e.r.actor = actor ∧ (id = "" ∨ e.r.id = id) := by
  simp [selects, and_assoc]

/-- The selected reminders are active. -/
theorem filter_selects (c : Codec) (rq : ReminderQueue) (actor : Actor) (id : String) :
    (rq.filter (selects actor id)).map ReminderEntry.r =
      rq.active.filter fun r => (reminders c).Selects actor id r := by
  rw [active, filter_map, filter_filter]
  refine congrArg _ (filter_congr fun e _ => ?_)
  rw [Bool.eq_iff_iff, selects_iff, Bool.and_eq_true, Function.comp_apply, decide_eq_true_eq,
    Bool.not_eq_true', and_comm]
  rfl

/-- `cancel` removes the selected reminders from the active ones. -/
theorem active_cancel (c : Codec) (rq : ReminderQueue) (actor : Actor) (id : String) :
    (rq.cancel actor id).1.active = rq.active.filter fun r => ¬ (reminders c).Selects actor id r := by
  induction rq with
  | nil => rfl
  | cons e rq ih =>
    have hsel := selects_iff actor id e
    have hcons : (cancel (e :: rq) actor id).1 =
        (if selects actor id e then { e with cancelled := true } else e) :: (cancel rq actor id).1 := rfl
    rw [hcons]
    by_cases hcancelled : e.cancelled = true
    · have hnot : ¬ selects actor id e = true := by simp [hsel, hcancelled]
      rw [if_neg hnot, active_cons_cancelled _ hcancelled, active_cons_cancelled _ hcancelled, ih]
    rw [active_cons rq hcancelled]
    by_cases he : selects actor id e = true
    · have hselects : (reminders c).Selects actor id e.r := (hsel.mp he).2
      rw [if_pos he, active_cons_cancelled _ rfl, ih, filter_cons_of_neg (by simpa using hselects)]
    · have hselects : ¬ (reminders c).Selects actor id e.r :=
        fun h => he (hsel.mpr ⟨by simpa using hcancelled, h⟩)
      rw [if_neg he, active_cons _ hcancelled, ih, filter_cons_of_pos (by simpa using hselects)]

theorem parse_eq_ok (c : Codec)
    : parse c actor id key payload = .ok (r, m) ↔ ∃ data period, c.unmarshalReminder payload = .ok
      data ∧ parsePeriod c data.period = .ok period ∧ r = ⟨actor, id, key, data.path,
      data.targetTime, period, data.data.getD ""⟩ ∧ m = persistReminder c r := by
  simp only [parse, bind_eq_ok]
  constructor
  · intro h
    obtain ⟨data, hdata, period, hperiod, h⟩ := h
    cases h
    exact ⟨data, period, hdata, hperiod, rfl, rfl⟩
  · intro h
    obtain ⟨data, period, hdata, hperiod, rfl, rfl⟩ := h
    exact ⟨data, hdata, period, hperiod, rfl⟩

theorem load_eq_ok (c : Codec) :
    load c key rMap = .ok r ↔ c.unmarshalTime ((rMap.lookup "targetTime").getD "") = .ok
      r.targetTime ∧ readPeriod c rMap = .ok r.period ∧ r.actor = ⟨(rMap.lookup "actorType").getD
      "", (rMap.lookup "actorId").getD ""⟩ ∧ r.id = (rMap.lookup "id").getD "" ∧ r.key = key ∧
      r.path = (rMap.lookup "path").getD "" ∧ r.encodedData = (rMap.lookup "encodedData").getD "" :=
      by
  simp only [load, bind_eq_ok]
  constructor
  · intro h
    obtain ⟨targetTime, htime, period, hperiod, h⟩ := h
    cases h
    exact ⟨htime, hperiod, rfl, rfl, rfl, rfl, rfl⟩
  · intro h
    obtain ⟨htime, hperiod, hactor, hid, hkey, hpath, hdata⟩ := h
    refine ⟨_, htime, _, hperiod, ?_⟩
    rw [← hactor, ← hid, ← hkey, ← hpath, ← hdata]
    rfl

end ReminderQueue

theorem reminders_lawful : Lawful (reminders c) ReminderQueue.active where
  find rq actor id := by
    show ((rq.filter (ReminderQueue.selects actor id)).map ReminderEntry.r).Perm _
    rw [rq.filter_selects c]
  cancelled rq actor id := by
    show ((rq.filter (ReminderQueue.selects actor id)).map ReminderEntry.r).Perm _
    rw [rq.filter_selects c]
  remaining rq actor id := by
    show (rq.cancel actor id).1.active.Perm _
    rw [rq.active_cancel c]
  added _ rq r _ _ := rq.active_add r
  not_added _ _ _ _ h := by simp [reminders] at h
  parsed actor id key payload b m h := by
    obtain ⟨data, period, -, -, rfl, -⟩ := (ReminderQueue.parse_eq_ok c).mp h
    exact ⟨rfl, rfl, rfl⟩
  rejected actor id key payload err h actor' id' key' := by
    simp only [reminders, ReminderQueue.parse] at h ⊢
    cases hdata : c.unmarshalReminder payload with
    | error => simpa [hdata, bind, Except.bind] using h
    | ok data =>
      cases hperiod : ReminderQueue.parsePeriod c data.period with
      | error => simpa [hdata, hperiod, bind, Except.bind] using h
      | ok => simp [hdata, hperiod, bind, Except.bind, pure, Except.pure] at h
  loaded actor id key m b h := by
    obtain ⟨-, -, -, -, hkey, -⟩ := (ReminderQueue.load_eq_ok c).mp h
    exact hkey

namespace Sources

/-- The subscriptions. -/
def active (c : Sources) : List Source := c.map.pairs.map Prod.snd

variable {c : Sources}

theorem mem_active :
    s ∈ c.active ↔ c.map.lookup (s.actor, s.id) = some s := by
  simp only [active, mem_map, Prod.exists, exists_eq_right, Hash.mem_pairs]
  constructor
  · intro h
    obtain ⟨actor, id, h⟩ := h
    rw [← c.keyed _ _ h]
    exact h
  · intro h
    exact ⟨s.actor, s.id, h⟩

theorem parse_eq_ok {c : Codec} {payload : String}
    {m : StateHash} : parse c actor id key payload = .ok (s, m) ↔
      c.unmarshalMap payload = .ok m ∧ load actor id key m = s := by
  rw [parse]
  cases hm : c.unmarshalMap payload with
  | error => simp [Except.map]
  | ok =>
    simp only [Except.map, Except.ok.injEq, Prod.mk.injEq]
    constructor
    · intro h
      exact ⟨h.2, h.2 ▸ h.1⟩
    · intro h
      exact ⟨h.1 ▸ h.2, h.1⟩

theorem nodup_active (c : Sources) : c.active.Nodup := by
  refine List.Nodup.map_on ?_ (List.Nodup.of_map _ c.map.nodup_pairs)
  intro p hp q hq heq
  have hp' := c.keyed _ _ (Hash.mem_pairs.mp hp)
  have hq' := c.keyed _ _ (Hash.mem_pairs.mp hq)
  exact Prod.ext (by rw [hp', hq', heq]) heq

theorem mem_selected :
    s ∈ (c.map.pairs.filter fun p => p.1.1 = actor).map Prod.snd ↔ s ∈ c.active ∧ s.actor = actor := by
  simp only [mem_map, mem_filter, Prod.exists, exists_eq_right, decide_eq_true_eq,
    Hash.mem_pairs, mem_active]
  constructor
  · intro h
    obtain ⟨a, id, h, rfl⟩ := h
    have hkey := c.keyed _ _ h
    rw [Prod.mk.injEq] at hkey
    exact ⟨by rw [← hkey.1, ← hkey.2]; exact h, hkey.1.symm⟩
  · intro h
    exact ⟨s.actor, s.id, h.1, h.2⟩

theorem nodup_selected (c : Sources) (actor : Actor) :
    ((c.map.pairs.filter fun p => p.1.1 = actor).map Prod.snd).Nodup :=
  c.nodup_active.sublist (filter_sublist.map _)

theorem mem_active_insert :
    s' ∈ (c.insert s).active ↔ s' = s ∨ (s' ∈ c.active ∧ (s'.actor, s'.id) ≠ (s.actor, s.id)) := by
  rw [mem_active, mem_active]
  show (c.map.insert (s.actor, s.id) s).lookup (s'.actor, s'.id) = some s' ↔ _
  by_cases hp : (s'.actor, s'.id) = (s.actor, s.id)
  · rw [hp, AList.lookup_insert]
    simp [eq_comm]
  · rw [AList.lookup_insert_ne hp]
    have hne : s' ≠ s := fun h => hp (by rw [h])
    simp [hne, hp]

theorem mem_active_delete :
    s ∈ (c.delete ps).active ↔ s ∈ c.active ∧ (s.actor, s.id) ∉ ps := by
  rw [mem_active, mem_active]
  show (c.map.remove ps).1.lookup (s.actor, s.id) = some s ↔ _
  rw [Hash.lookup_remove]
  by_cases hp : (s.actor, s.id) ∈ ps <;> simp [hp]

theorem find_perm (c : Codec) (d : Sources) (actor : Actor) (id : String) :
    (d.find actor id).Perm (d.active.filter fun s => (subscriptions c).Selects actor id s) := by
  have hnodup : (d.active.filter fun s => (subscriptions c).Selects actor id s).Nodup :=
    d.nodup_active.filter _
  unfold find
  split
  · rename_i hid
    rw [perm_ext_iff_of_nodup (by cases d.map.lookup (actor, id) <;> simp) hnodup]
    intro s
    simp only [Option.mem_toList, mem_filter, mem_active, decide_eq_true_eq,
      Collection.Selects, subscriptions, hid, false_or]
    constructor
    · intro h
      have hkey := d.keyed _ _ h
      rw [Prod.mk.injEq] at hkey
      exact ⟨by rw [← hkey.1, ← hkey.2]; exact h, hkey.1.symm, hkey.2.symm⟩
    · intro h
      rw [← h.2.1, ← h.2.2]
      exact h.1
  · rename_i hid
    rw [perm_ext_iff_of_nodup (d.nodup_selected actor) hnodup]
    intro s
    rw [mem_selected]
    simp [Collection.Selects, subscriptions, not_not.mp hid]

end Sources

theorem subscriptions_lawful : Lawful (subscriptions c) Sources.active where
  find d actor id := d.find_perm c actor id
  cancelled d actor id := by
    have hfound : (d.cancel actor id).2 = d.find actor id := by
      unfold Sources.cancel Sources.find
      split <;> rfl
    show (d.cancel actor id).2.Perm _
    rw [hfound]
    exact d.find_perm c actor id
  remaining d actor id := by
    show (d.cancel actor id).1.active.Perm _
    rw [perm_ext_iff_of_nodup (Sources.nodup_active _) (d.nodup_active.filter _)]
    intro s
    rw [mem_filter, decide_eq_true_eq]
    unfold Sources.cancel
    split
    · rename_i hid
      rw [Sources.mem_active_delete]
      simp [Collection.Selects, subscriptions, hid]
    rename_i hid
    rw [Sources.mem_active_delete]
    refine and_congr_right fun hs => not_congr ?_
    simp only [mem_map, mem_filter, Prod.exists, exists_and_right, exists_eq_right,
      decide_eq_true_eq, Hash.mem_pairs, Collection.Selects, subscriptions, not_not.mp hid, true_or,
      and_true]
    constructor
    · intro h
      exact h.2
    · intro h
      exact ⟨⟨s, Sources.mem_active.mp hs⟩, h⟩
  added subscribed d s hok hnew := by
    have hadd : (d.add subscribed s).1 = d.insert s := by
      have hok' : (d.add subscribed s).2 = .ok () := hok
      unfold Sources.add at hok' ⊢
      split at hok'
      · simp at hok'
      rfl
    show (d.add subscribed s).1.active.Perm _
    have hs : s ∉ d.active := fun h => hnew s h ⟨rfl, rfl⟩
    rw [hadd, perm_ext_iff_of_nodup (Sources.nodup_active _) (nodup_cons.mpr ⟨hs, d.nodup_active⟩)]
    intro s'
    rw [Sources.mem_active_insert, mem_cons]
    refine or_congr_right (and_iff_left_of_imp fun hs' heq => ?_)
    rw [Prod.mk.injEq] at heq
    exact hnew s' hs' heq
  not_added subscribed d s f h := by
    have h' : (d.add subscribed s).2 = .error f := h
    show (d.add subscribed s).1.active.Perm _
    unfold Sources.add at h' ⊢
    split at h'
    · exact List.Perm.refl _
    · simp at h'
  parsed actor id key payload b m h := by
    obtain ⟨-, rfl⟩ := Sources.parse_eq_ok.mp h
    exact ⟨rfl, rfl, rfl⟩
  rejected actor id key payload err h actor' id' key' := by
    simp only [subscriptions, Sources.parse] at h ⊢
    cases hm : c.unmarshalMap payload with
    | error => simpa [hm, Except.map] using h
    | ok => simp [hm, Except.map] at h
  loaded actor id key m b h := by
    cases h
    rfl

/-! ## The two kinds -/

/-- The keys of the map `pairs`. -/
inductive Kind where
  | reminders
  | subscriptions
  deriving DecidableEq, Repr

namespace Kind

def name : Kind → String
  | .reminders => "reminders"
  | .subscriptions => "subscriptions"

def Memory : Kind → Type
  | .reminders => ReminderQueue
  | .subscriptions => Sources

def Binding : Kind → Type
  | .reminders => Reminder
  | .subscriptions => Source

/-- `pairs[kind].bindings` -/
def collection (c : Codec) : (kind : Kind) → Collection kind.Memory kind.Binding
  | .reminders => Bindings.reminders c
  | .subscriptions => Bindings.subscriptions c

/-- The active bindings. -/
def active : (kind : Kind) → kind.Memory → List kind.Binding
  | .reminders => ReminderQueue.active
  | .subscriptions => Sources.active

/-- The collection without bindings. -/
def empty : (kind : Kind) → kind.Memory
  | .reminders => []
  | .subscriptions => .empty

theorem lawful (c : Codec) : (kind : Kind) → Lawful (kind.collection c) kind.active
  | .reminders => reminders_lawful
  | .subscriptions => subscriptions_lawful

end Kind

end Kar.Bindings
