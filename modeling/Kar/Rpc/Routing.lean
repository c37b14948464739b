import Kar.Lib.GoMap
import Kar.Rpc.Kafka

/-!
# Routing and sending

`core/pkg/rpc/send.go`: where a message goes, and what a send leaves behind.
A node routes with its own tables.  `service2nodes` and `node2partition` are
rebuilt at every generation of the consumer group, and the placement of an
actor is a key of the Redis store that all nodes share.

The world outside the node decides a few things during a send: the random node
it picks, how many compare-and-set rounds pass before the context is cancelled
and whether Redis answers them, and whether Kafka acknowledges the message.
`Chance` collects these, so a statement about every `Chance` is a statement
about every routing outcome.

Redis answers `Get`, `Set` and `Del`, whose errors the source ignores.
-/

namespace Kar.Rpc

open Kar.Lib

/-- The errors of a send. -/
inductive SendError
  | cancelled
  | redis
  | kafka
  | unavailable
  deriving DecidableEq, Repr

/-- `place(service, session)`: the key of the placement of an actor. -/
def place (service session : String) : String := "rpc" ++ "_" ++ service ++ "_" ++ session

/-- `alt(id)`: the key of the redirection of a response. -/
def alt (id : String) : String := "alt_" ++ id

/-- The Redis store: a map from keys to node ids. -/
abbrev Store := GoMap String String

/-- An entry of the placement cache. -/
structure PlacementCacheEntry where
  node : String
  used : Bool
  deriving DecidableEq, Repr

/-- `session2NodeCache` of one node. -/
abbrev Cache := GoMap String PlacementCacheEntry

/-- The routing tables of one node. -/
structure Tables where
  self : String
  service2nodes : String → List String
  node2partition : String → Nat
  placementCache : Bool

/-- What the outside world decides during one send.  `rounds` has one entry for
each loop test of `routeToSession` that finds the context alive, `false` when
Redis fails in that round. -/
structure Chance where
  cancelled : Bool
  rand : Nat
  rounds : List Bool
  acked : Bool
  deriving DecidableEq, Repr

/-- The state a send reads and writes: the topic, the store and the cache of
the sender.  `sent` records the messages that Kafka acknowledged. -/
structure World where
  log : Log
  store : Store
  cache : Cache
  sent : List (Nat × Message)

/-- The world of a leader that starts a recovery: its plan has emptied the
cache. -/
def World.start (log : Log) (store : Store) : World where
  log := log
  store := store
  cache := .empty
  sent := []

@[simp] theorem World.start_log (log : Log) (store : Store) : (World.start log store).log = log :=
  rfl

/-- `store.CAS`: the script that Redis runs atomically.  It writes `desired`
when the key holds `expected`, an absent key counting as `""`, and answers the
value the key holds afterwards, `""` when it is absent. -/
def cas (store : Store) (key expected desired : String) : String × Store :=
  match store.get? key with
  | none => if expected = "" then (desired, store.set key desired) else ("", store)
  | some v => if v = expected then (desired, store.set key desired) else (v, store)

/-- Lookup partition offering service. -/
def routeToService (t : Tables) (rand : Nat) (service : String) : String × Nat :=
  match t.service2nodes service with
  | [] => ("", 0)
  | node :: nodes =>
    let next := (node :: nodes).getD (rand % (nodes.length + 1)) ""
    (next, t.node2partition next)

/-- The loop of `routeToSession`, from the node that the last round saw. -/
def placeLoop (t : Tables) (key next : String) :
    List Bool → String → Store → Except SendError (String × Nat) × Store
  | [], _, store => (.error .cancelled, store)
  | false :: _, _, store => (.error .redis, store)
  | true :: rounds, node, store =>
    let (node, store) := cas store key node next
    if t.node2partition node ≠ 0 then (.ok (node, t.node2partition node), store)
    else placeLoop t key next rounds node store

/-- Lookup partition offering session. -/
def routeToSession (t : Tables) (c : Chance) (service session : String) (cache : Cache)
    (store : Store) : Except SendError (String × Nat) × Cache × Store :=
  match t.service2nodes service with
  | [] => (.ok ("", 0), cache, store) -- no matching service
  | node :: nodes =>
    let key := place service session
    match (if t.placementCache then cache.get? key else none) with
    | some entry =>
      (.ok (entry.node, t.node2partition entry.node),
        cache.set key { entry with used := true }, store)
    | none =>
      let next := (node :: nodes).getD (c.rand % (nodes.length + 1)) ""
      match placeLoop t key next c.rounds "" store with
      | (.error e, store) => (.error e, cache, store)
      | (.ok (node, partition), store) =>
        (.ok (node, partition),
          if t.placementCache then cache.set key { node := node, used := true } else cache, store)

/-- `producer.SendMessage(encode(appTopic, partition, msg))`. -/
def sendMessage (t : Tables) (c : Chance) (partition : Nat) (msg : Message) (w : World) :
    Except SendError Unit × World :=
  if c.acked then
    (.ok (), { w with
      log := w.log.append partition (msg.wire t.self)
      sent := w.sent ++ [(partition, msg.wire t.self)] })
  else (.error .kafka, w)

/-- Send message. -/
def send (t : Tables) (c : Chance) (msg : Message) (w : World) : Except SendError Unit × World :=
  if c.cancelled then (.error .cancelled, w)
  else match msg with
  | .request v =>
    match v.target with
    | .service name => sendMessage t c (routeToService t c.rand name).2 msg w
    | .session name id _ _ =>
      match routeToSession t c name id w.cache w.store with
      | (.error e, cache, store) => (.error e, { w with cache := cache, store := store })
      | (.ok (_, partition), cache, store) =>
        sendMessage t c partition msg { w with cache := cache, store := store }
    | .node id =>
      if t.node2partition id = 0 then (.error .unavailable, w)
      else sendMessage t c (t.node2partition id) msg w
  | .response r =>
    if t.node2partition r.node ≠ 0 then sendMessage t c (t.node2partition r.node) msg w
    else
      -- The caller is gone: the response follows the parent that waits for it.
      let node := (w.store.get? (alt r.requestID)).getD ""
      if node = "" then (.error .unavailable, w)
      else
        match sendMessage t c (t.node2partition node) msg w with
        | (.ok (), w) => (.ok (), { w with store := w.store.delete (alt r.requestID) })
        | (.error e, w) => (.error e, w)
  | .done _ => sendMessage t c 0 msg w

/-- The response that a call to a dead node is answered with. -/
def nodeDied (v : CallRequest) : Response where
  requestID := v.requestID
  value := []
  deadline := none
  errMsg := "node died before processing call request"
  node := v.caller

/-- The common end of `resend`: nothing for a request that stays in partition
`0`, otherwise the redirection of the child's response and the message. -/
def resendTo (t : Tables) (c : Chance) (msg : Request) (drop : Bool) (node : String)
    (partition : Nat) (w : World) : Except SendError Unit × World :=
  if partition = 0 ∧ drop then (.ok (), w)
  else
    let store :=
      if msg.childID ≠ "" ∧ node ≠ "" then w.store.set (alt msg.childID) node else w.store
    sendMessage t c partition (.request msg) { w with store := store }

/-- Resend request during recovery. -/
def resend (t : Tables) (c : Chance) (msg : Request) (drop : Bool) (w : World) :
    Except SendError Unit × World :=
  match msg.target with
  | .node _ =>
    match msg with
    | .call v => sendMessage t c (t.node2partition v.caller) (.response (nodeDied v)) w
    | .tell _ => (.ok (), w)
  | .service name =>
    let (node, partition) := routeToService t c.rand name
    resendTo t c msg drop node partition w
  | .session name id _ _ =>
    match routeToSession t c name id w.cache w.store with
    | (.error e, cache, store) => (.error e, { w with cache := cache, store := store })
    | (.ok (node, partition), cache, store) =>
      resendTo t c msg drop node partition { w with cache := cache, store := store }

/-- Resend response during recovery. -/
def respond (t : Tables) (c : Chance) (msg : Done) (w : World) : Except SendError Unit × World :=
  sendMessage t c 0 (.done msg) w

end Kar.Rpc
