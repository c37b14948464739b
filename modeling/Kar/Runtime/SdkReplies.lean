import Kar.Runtime.HandlerActor

/-!
# The replies of the SDKs

What the actor runtimes of the two SDKs send for the outcome of a method (`sdk-js/index.js`,
`ActorRuntimeResource.java`), what `handlerActor` makes of it, and what the caller gets.

A tail call is an object that the SDK builds, that is sent as JSON text, and that `handlerActor` takes
apart with type assertions (`tailCall_decoded_iff`).  Any other outcome is passed through to the caller's
sidecar, and `parseActor` settles the promise of the caller from the status and the text
(`outcome_unchanged_iff`).
-/

namespace Kar.Runtime

open Kar.Lib Kar.Rpc Kar.Store

/-! ## Values of JavaScript

A JSON value is an `Any`, and `none` is `undefined`. -/

namespace Any

/-- `v.name` for a value other than `null`. -/
def field (v : Any) (name : String) : Option Any :=
  match v with
  | .map fields => fields name
  | _ => none

/-- Whether `if` takes a value for true. -/
def truthy : Option Any → Bool
  | none => false
  | some .nil => false
  | some (.bool b) => b
  | some (.float64 literal) => literal ≠ "0" && literal ≠ "-0"
  | some (.string s) => s ≠ ""
  | some (.slice _) => true
  | some (.map _) => true

mutual

/-- How often the field can be taken again. -/
def depth (name : String) : Any → Nat
  | .map fields => depthOption name (fields name)
  | _ => 0

def depthOption (name : String) : Option Any → Nat
  | none => 0
  | some v => depth name v + 1

end

/-- No value is a field of itself. -/
theorem field_ne_self (v : Any) (name : String) : v.field name ≠ some v := by
  intro h
  cases v with
  | map fields =>
    have hdepth : depth name (.map fields) = depthOption name (some (.map fields)) := by
      rw [← show fields name = some (.map fields) from h, depth]
    rw [depthOption] at hdepth
    omega
  | _ => cases h

end Any

/-- An object literal.  A field that is `undefined` is not sent. -/
def object (fields : List (String × Option Any)) : Any :=
  .map fun name => (fields.lookup name).join

/-- What the SDKs take from JavaScript, Java and Express. -/
structure SdkEnv where
  /-- `JSON.stringify`, and `toString` of the JSON values of Java. -/
  text : Any → String
  /-- `JSON.parse` -/
  parse : String → Option Any
  /-- `String(v)` -/
  toText : Option Any → String
  /-- The page of Express for a request that no route answers. -/
  notFound : String
  /-- The message of the `TypeError` for a field of `null`. -/
  nullField : String

def karJson : String := "application/kar+json"

/-! ## Tail calls -/

/-- A tail call that a method returns. -/
inductive SdkTailCall where
  /-- `actor.tailCall` and `actor.tailCallReleasingLock` of JavaScript, on a proxy with any id. -/
  | actorTailCall (releaseLock : Bool) (type : String) (id : Option Any) (path : String) (args : List Any)
  /-- `tailCall` of JavaScript. -/
  | serviceTailCall (service path : String) (body : Any)
  /-- `new TailCall(actor, path, releaseLock, args)` of Java. -/
  | javaActor (releaseLock : Bool) (type id path : String) (args : List Any)
  /-- `new TailCall(service, path, body)` of Java. -/
  | javaService (service path : String) (body : Any)

section Encoders

variable (sdk : SdkEnv)

/-- `encodeTailCall` -/
def encodeTailCall (service path : String) (payload : Any) : Any :=
  object [("serviceName", some (.string service)), ("path", some (.string ("/" ++ path))),
    ("payload", some payload), ("method", some (.string "POST"))]

/-- `actorEncodeTailCall` -/
def actorEncodeTailCall (type : String) (id : Option Any) (path : String) (args : List Any) : Any :=
  object [("actorType", some (.string type)), ("actorId", id), ("path", some (.string ("/" ++ path))),
    ("payload", some (.string (sdk.text (.slice args))))]

/-- `actorEncodeTailCallReleasingLock` -/
def actorEncodeTailCallReleasingLock (type : String) (id : Option Any) (path : String)
    (args : List Any) : Any :=
  object [("actorType", some (.string type)), ("actorId", id), ("releaseLock", some (.string "true")),
    ("path", some (.string ("/" ++ path))), ("payload", some (.string (sdk.text (.slice args))))]

/-- The field `value` of the reply. -/
def SdkTailCall.value : SdkTailCall → Any
  | .actorTailCall false type id path args => actorEncodeTailCall sdk type id path args
  | .actorTailCall true type id path args => actorEncodeTailCallReleasingLock sdk type id path args
  | .serviceTailCall service path body => encodeTailCall service path body
  -- The two branches of `invokeActorMethod`.
  | .javaActor releaseLock type id path args =>
    object [("payload", some (.string (sdk.text (.slice args)))), ("actorType", some (.string type)),
      ("actorId", some (.string id)), ("path", some (.string ("/" ++ path))),
      ("releaseLock", if releaseLock then some (.string "true") else none)]
  | .javaService service path body =>
    object [("payload", some (.string (sdk.text body))), ("serviceName", some (.string service)),
      ("method", some (.string "POST")), ("path", some (.string ("/" ++ path))),
      ("releaseLock", some (.string "true"))]

/-- The reply of the actor runtime. -/
def SdkTailCall.reply (tc : SdkTailCall) : HttpReply :=
  ⟨200, karJson, sdk.text (object [("tailCall", some (.bool true)), ("value", some (tc.value sdk))])⟩

end Encoders

section Expected

variable (sdk : SdkEnv) (env : HandlerEnv) (command : String) (target : Session)

/-- A request for an actor.  The lock is retained if the actor calls itself and does not release it. -/
def actorRequest (releaseLock : Bool) (type id path : String) (args : List Any) :
    (Target × String) × List UInt8 :=
  ((.session type id target.flow
      (if type = target.name ∧ id = target.id ∧ releaseLock = false then env.newLockId else ""),
    actorEndpoint), env.marshalMap [("command", command), ("path", "/" ++ path),
      ("payload", sdk.text (.slice args))])

/-- A `POST` of a JSON body to a service. -/
def serviceRequest (service path body : String) : (Target × String) × List UInt8 :=
  ((.service service, serviceEndpoint), env.marshalMap [("command", command), ("path", "/" ++ path),
    ("payload", body), ("method", "POST"),
    ("header", "\x7b\"Content-Type\": [\"application/json\"]\x7d"), ("actorTailCall", "true")])

/-- What the caller of the SDK means by a tail call. -/
def SdkTailCall.meaning : SdkTailCall → (Target × String) × List UInt8
  | .actorTailCall releaseLock type id path args =>
    actorRequest sdk env command target releaseLock type (sdk.toText id) path args
  | .javaActor releaseLock type id path args =>
    actorRequest sdk env command target releaseLock type id path args
  | .serviceTailCall service path body | .javaService service path body =>
    serviceRequest env command service path (sdk.text body)

end Expected

/-- The id of the actor is a string, or the SDK is the one of Java. -/
def SdkTailCall.Decodable : SdkTailCall → Prop
  | .actorTailCall _ _ id _ _ => ∃ s, id = some (.string s)
  | .serviceTailCall _ _ _ => False
  | .javaActor _ _ _ _ _ | .javaService _ _ _ => True

/-- What the libraries do with a tail call. -/
structure TailCallLibraries (sdk : SdkEnv) (env : HandlerEnv) (tc : SdkTailCall) : Prop where
  /-- `json.Unmarshal` reads what the SDK has written. -/
  read : env.unmarshalResult (tc.reply sdk).payload = .ok ⟨tc.value sdk, true, false, "", ""⟩
  /-- The payload of a message is in its JSON text. -/
  payload : ∀ m m' : List (String × String), env.marshalMap m = env.marshalMap m' →
    m.lookup "payload" = m'.lookup "payload"
  /-- The JSON text of a string has quotes. -/
  quoted : ∀ s, sdk.text (.string s) ≠ s
  toText : ∀ s, sdk.toText (some (.string s)) = s

section TailCalls

/-- The reply is a tail call that the handler takes apart. -/
theorem handlerActor_eq_iff (hcommand : d.command = .ok command)
    (hkind : command = "call" ∨ command = "tell") (hflow : d.target.flow = d.activeFlow)
    (hactive : d.Active) (hinvocation : d.invocation = .ok ⟨200, contentType, payload⟩)
    (hread : env.unmarshalResult payload = .ok ⟨v, true, false, "", ""⟩) :
    handlerActor env d = .ok (⟨some dest, bytes, none⟩, true) ↔
      tailCall env command d.target v = .ok (some (dest, bytes)) := by
  have hinspect : inspect env command d.target ⟨200, contentType, payload⟩ =
      tailCall env command d.target v := by
    cases hkind with
    | inl h => simp [inspect, h, inspectCall, hread]
    | inr h => simp [inspect, h, inspectTell, hread]
  rw [handlerActor_of_active hcommand hkind hflow hactive, invokeMethod, if_pos hkind, hinvocation]
  simp only [inspectReply, hinspect]
  cases tailCall env command d.target v with
  | error => simp [Except.map]
  | ok r =>
    cases r with
    | none => simp [Except.map]
    | some => simp [Except.map, Prod.ext_iff]

/-- A tail call to an actor is taken apart if the id is a string. -/
theorem tailCall_actor {cr : GoMap String Any} {releaseLock : Bool} {type path : String} {args : List Any}
    (hservice : cr "serviceName" = none) (htype : cr "actorType" = some (.string type))
    (hpath : cr "path" = some (.string ("/" ++ path)))
    (hpayload : cr "payload" = some (.string (sdk.text (.slice args)))) (hmethod : cr "method" = none)
    (hrelease : cr "releaseLock" = if releaseLock then some (.string "true") else none) :
    tailCall env command target (.map cr) = (cr.getD "actorId" .nil).asString.map fun id =>
      some (actorRequest sdk env command target releaseLock type id path args) := by
  have hdest : tailCallDest env target cr = (cr.getD "actorId" .nil).asString.map fun id =>
      some (actorRequest sdk env command target releaseLock type id path args).1 := by
    simp only [tailCallDest, GoMap.has, hservice, htype, GoMap.getD, hrelease]
    cases ((cr "actorId").getD .nil).asString with
    | error => rfl
    | ok => cases releaseLock <;> rfl
  have hmessage : tailCallMessage command cr = .ok [("command", command), ("path", "/" ++ path),
      ("payload", sdk.text (.slice args))] := by
    simp only [tailCallMessage, tailCallMethod, GoMap.getD, hpath, hpayload, hmethod]
    rfl
  simp only [tailCall, Any.asMap, bind, Except.bind, hdest, hmessage]
  cases (cr.getD "actorId" .nil).asString with
  | error => rfl
  | ok => rfl

/-- A tail call to a service is taken apart if the payload is a string. -/
theorem tailCall_service {cr : GoMap String Any} {service path : String}
    (hservice : cr "serviceName" = some (.string service))
    (hpath : cr "path" = some (.string ("/" ++ path))) (hmethod : cr "method" = some (.string "POST")) :
    tailCall env command target (.map cr) = (cr.getD "payload" .nil).asString.map fun payload =>
      some (serviceRequest env command service path payload) := by
  have hdest : tailCallDest env target cr = .ok (some (.service service, serviceEndpoint)) := by
    simp only [tailCallDest, GoMap.has, GoMap.getD, hservice]
    rfl
  simp only [tailCall, Any.asMap, bind, Except.bind, hdest, tailCallMessage, tailCallMethod, GoMap.getD,
    hpath, hmethod]
  cases ((cr "payload").getD .nil).asString with
  | error => rfl
  | ok => rfl

theorem tailCall_actorTailCall (releaseLock : Bool) (type : String) (id : Option Any) (path : String)
    (args : List Any) : tailCall env command target
        ((SdkTailCall.actorTailCall releaseLock type id path args).value sdk) =
      (id.getD .nil).asString.map fun id =>
        some (actorRequest sdk env command target releaseLock type id path args) := by
  cases releaseLock with
  | false => exact tailCall_actor rfl rfl rfl rfl rfl rfl
  | true => exact tailCall_actor rfl rfl rfl rfl rfl rfl

theorem tailCall_serviceTailCall :
    tailCall env command target ((SdkTailCall.serviceTailCall service path body).value sdk) =
      body.asString.map fun payload =>
        some (serviceRequest env command service path payload) :=
  tailCall_service rfl rfl rfl

theorem map_asString_eq_some {v : Any} {f : String → α} {a : α} :
    v.asString.map (fun s => some (f s)) = .ok (some a) ↔ ∃ s, v = .string s ∧ f s = a := by
  cases v <;> simp [Any.asString, Except.map]

/-- A tail call is taken apart as it is meant. -/
theorem tailCall_value_iff {tc : SdkTailCall} (hlib : TailCallLibraries sdk env tc) :
    tailCall env command target (tc.value sdk) = .ok (some (tc.meaning sdk env command target)) ↔
      tc.Decodable := by
  cases tc with
  | actorTailCall _ _ id =>
    rw [tailCall_actorTailCall, map_asString_eq_some]
    constructor
    · intro h
      obtain ⟨s, hid, -⟩ := h
      cases id with
      | none => cases hid
      | some => exact ⟨s, congrArg some hid⟩
    · intro h
      obtain ⟨s, hid⟩ := h
      subst hid
      exact ⟨s, rfl, by rw [SdkTailCall.meaning, hlib.toText]⟩
  | serviceTailCall _ _ body =>
    -- The body is sent as it is, so that a string lacks its quotes, and nothing else is a string.
    rw [tailCall_serviceTailCall, map_asString_eq_some]
    refine iff_of_false ?_ id
    intro h
    obtain ⟨s, hbody, hmeaning⟩ := h
    subst hbody
    have hpayload := hlib.payload _ _ (congrArg Prod.snd hmeaning)
    exact hlib.quoted s (Option.some.inj hpayload).symm
  | javaActor =>
    exact iff_of_true (tailCall_actor rfl rfl rfl rfl rfl rfl) trivial
  | javaService =>
    exact iff_of_true (tailCall_service rfl rfl rfl) trivial

end TailCalls

private def quoting : SdkEnv where
  text
    | .string s => "\"" ++ s ++ "\""
    | _ => "[]"
  parse _ := none
  toText
    | some (.string s) => s
    | some (.float64 literal) => literal
    | _ => ""
  notFound := "Cannot POST"
  nullField := "TypeError"

/-- Libraries for one tail call. -/
private def librariesOf (tc : SdkTailCall) : HandlerEnv where
  unmarshalResult _ := .ok ⟨tc.value quoting, true, false, "", ""⟩
  marshalMap m := match m.lookup "payload" with
    | none => []
    | some payload => 0 :: payload.toByteArray.data.toList
  marshalReply _ := []
  newLockId := "lock"

private theorem libraries_of : TailCallLibraries quoting (librariesOf tc) tc where
  read := rfl
  payload m m' h := by
    simp only [librariesOf] at h
    cases hm : m.lookup "payload" <;> cases hm' : m'.lookup "payload" <;> rw [hm, hm'] at h
    · cases h
    · cases h
    · simpa [ByteArray.ext_iff, Array.toList_inj, ← String.toByteArray_inj] using h
  quoted s h := by
    have hlength : ("\"" ++ s ++ "\"").length = s.length := congrArg String.length h
    rw [String.length_append, String.length_append, show "\"".length = 1 from rfl] at hlength
    omega
  toText s := rfl

/-- A message for the actor `Account/a`, which is active. -/
private def delivery (tc : SdkTailCall) : ActorDelivery where
  command := .ok "call"
  target := ⟨"Account", "a", "flow", ""⟩
  activeFlow := "flow"
  activated := true
  activation := .error ""
  invocation := .ok (tc.reply quoting)
  deactivation := .error ""
  deletion := none

private def toItself : SdkTailCall := .actorTailCall false "Account" (some (.string "a")) "pay" []

private def toNumber : SdkTailCall := .actorTailCall false "Account" (some (.float64 "1")) "pay" []

private def toLedger (body : Any) : SdkTailCall := .serviceTailCall "ledger" "post" body

/-- The outcome of a method of JavaScript. -/
inductive Outcome where
  | returns (value : Option Any)
  | throws (message : String)

/-- How the promise of the caller is settled. -/
inductive Settled where
  | resolves (value : Option Any)
  | rejects (message : String)

/-- The promise that the caller is to get. -/
def Outcome.settled : Outcome → Settled
  | .returns value => .resolves value
  | .throws message => .rejects message

/-- What the route that invokes a method sends for its outcome. -/
def Outcome.reply (sdk : SdkEnv) : Outcome → HttpReply
  | .returns none => ⟨204, "", ""⟩
  -- `value.tailCall` throws for `null`.
  | .returns (some .nil) => ⟨404, "text/html", sdk.notFound⟩
  | .returns (some value) =>
    if Any.truthy (value.field "tailCall") then ⟨200, karJson, sdk.text value⟩
    else ⟨200, karJson, sdk.text (object [("value", some value)])⟩
  -- The error is dropped, since `next()` has no argument.
  | .throws _ => ⟨404, "text/html", sdk.notFound⟩

/-- The route that invokes a method: the reply, and the session that the actor has afterwards.  The
method is run in the session of the request, and its outcome comes with the session that it leaves. -/
def methodRoute (sdk : SdkEnv) (method : Option String → Outcome × Option String)
    (session prior : Option String) : HttpReply × Option String :=
  ((method session).1.reply sdk, prior)

/-- The end of `routeImplCall`. -/
def routeImplCall (reply : HttpReply) : HttpReply :=
  if reply.statusCode = 204 then ⟨204, "", ""⟩ else reply

def parseActor (sdk : SdkEnv) (reply : HttpReply) : Settled :=
  if ¬(200 ≤ reply.statusCode ∧ reply.statusCode < 300) then .rejects reply.payload
  else if reply.statusCode = 204 then .resolves none
  else if reply.statusCode = 202 then .resolves (some (.string reply.payload))
  else match sdk.parse reply.payload with
    | none => .rejects reply.payload
    | some .nil => .rejects sdk.nullField
    | some obj =>
      if Any.truthy (obj.field "error") then
        .rejects (match obj.field "message" with
          | none => ""
          | some message => sdk.toText (some message))
      else .resolves (obj.field "value")

/-- The promise that `actor.call` returns, if the handler does not panic and the request is not passed on
by a tail call. -/
def settle (sdk : SdkEnv) (env : HandlerEnv) (readReply : List UInt8 → Option HttpReply)
    (d : ActorDelivery) : Option Settled :=
  match handlerActor env d with
  | .ok (⟨none, value, none⟩, _) =>
    (readReply value).map fun reply => parseActor sdk (routeImplCall reply)
  | _ => none

/-- A value that survives `JSON.stringify` and `JSON.parse`, and that the sidecar does not take for a tail
call unless it is one. -/
structure Representable (sdk : SdkEnv) (env : HandlerEnv) (value : Any) : Prop where
  parse : sdk.parse (sdk.text value) = some value
  tailCall : ∀ result, env.unmarshalResult (sdk.text value) = .ok result → result.tailCall = true →
    value.field "tailCall" = some (.bool true)

/-- The method returns `undefined` or a value other than `null` without a truthy field `tailCall`, or the
message of its error is the page of Express. -/
def Outcome.Survives (sdk : SdkEnv) : Outcome → Prop
  | .returns none => True
  | .returns (some .nil) => False
  | .returns (some value) => Any.truthy (value.field "tailCall") = false
  | .throws message => message = sdk.notFound

section Outcomes

variable {sdk : SdkEnv} {env : HandlerEnv} {d : ActorDelivery}
  {reply : HttpReply} {value : Any}

/-- A reply that is not a tail call is passed through. -/
theorem settle_eq (hcommand : d.command = .ok "call") (hflow : d.target.flow = d.activeFlow)
    (hactive : d.Active) (hinvocation : d.invocation = .ok reply)
    (hread : readReply (env.marshalReply reply) = some reply)
    (hnot : reply.statusCode = 200 → ∀ result, env.unmarshalResult reply.payload = .ok result →
      result.tailCall = false) :
    settle sdk env readReply d = some (parseActor sdk (routeImplCall reply)) := by
  have hinspect : inspect env "call" d.target reply = .ok none := by
    show inspectCall env d.target reply = .ok none
    unfold inspectCall
    split
    · rename_i hstatus
      cases hresult : env.unmarshalResult reply.payload with
      | error => rfl
      | ok result => simp [hnot hstatus result hresult]
    · rfl
  have hhandler : handlerActor env d = .ok (⟨none, env.marshalReply reply, none⟩, true) := by
    rw [handlerActor_of_active hcommand (.inl rfl) hflow hactive, invokeMethod, if_pos (.inl rfl),
      hinvocation]
    simp [inspectReply, hinspect, Except.map]
  simp [settle, hhandler, hread]

theorem parseActor_ok : parseActor sdk ⟨200, karJson, payload⟩ =
    match sdk.parse payload with
    | none => .rejects payload
    | some .nil => .rejects sdk.nullField
    | some obj =>
      if Any.truthy (obj.field "error") then
        .rejects (match obj.field "message" with
          | none => ""
          | some message => sdk.toText (some message))
      else .resolves (obj.field "value") :=
  rfl

/-- A value in an object of its own comes back. -/
theorem parseActor_wrapped
    (h : sdk.parse (sdk.text (object [("value", some value)])) = some (object [("value", some value)])) :
    parseActor sdk ⟨200, karJson, sdk.text (object [("value", some value)])⟩ =
      .resolves (some value) := by
  rw [parseActor_ok, h]
  rfl

/-- A value that is sent as it is does not come back. -/
theorem parseActor_ne_self (h : sdk.parse (sdk.text value) = some value) :
    parseActor sdk ⟨200, karJson, sdk.text value⟩ ≠ .resolves (some value) := by
  rw [parseActor_ok, h]
  split
  · nofun
  · nofun
  rename_i obj _ hobj
  cases hobj
  split
  · nofun
  · intro hvalue
    exact value.field_ne_self "value" (Settled.resolves.inj hvalue)

variable {o : Outcome}

/-- The cases of a value that is returned. -/
theorem Outcome.returns_cases (sdk : SdkEnv) (v : Any) : v = .nil ∨
    ((Outcome.returns (some v)).reply sdk = (if Any.truthy (v.field "tailCall") then ⟨200, karJson,
        sdk.text v⟩ else ⟨200, karJson, sdk.text (object [("value", some v)])⟩) ∧ ((Outcome.returns
        (some v)).Survives sdk ↔ Any.truthy (v.field "tailCall") = false)) := by
  cases v with
  | nil => exact .inl rfl
  | _ => exact .inr ⟨rfl, Iff.rfl⟩

/-- The reply is not taken for a tail call. -/
theorem Outcome.reply_not_tailCall (hjson : ∀ v, o = .returns (some v) →
      Representable sdk env v ∧ Representable sdk env (object [("value", some v)]))
    (hnot : ∀ v, o = .returns (some v) → v.field "tailCall" ≠ some (.bool true))
    (hstatus : (o.reply sdk).statusCode = 200) (result : ActorCallResult)
    (hresult : env.unmarshalResult (o.reply sdk).payload = .ok result) : result.tailCall = false := by
  cases o with
  | throws => cases hstatus
  | returns v =>
    cases v with
    | none => cases hstatus
    | some v =>
      by_contra htail
      cases Outcome.returns_cases sdk v with
      | inl h => rw [h] at hstatus; cases hstatus
      | inr h =>
        rw [h.1] at hresult
        split at hresult
        · exact hnot v rfl ((hjson v rfl).1.tailCall result hresult (by simpa using htail))
        · cases (hjson v rfl).2.tailCall result hresult (by simpa using htail)

/-- The promise is settled as the outcome says. -/
theorem Outcome.parseActor_reply_iff (hjson : ∀ v, o = .returns (some v) →
      Representable sdk env v ∧ Representable sdk env (object [("value", some v)])) :
    parseActor sdk (routeImplCall (o.reply sdk)) = o.settled ↔ o.Survives sdk := by
  cases o with
  | throws message =>
    show Settled.rejects sdk.notFound = .rejects message ↔ message = sdk.notFound
    rw [Settled.rejects.injEq, eq_comm]
  | returns v =>
    cases v with
    | none => exact iff_of_true rfl trivial
    | some v =>
      cases Outcome.returns_cases sdk v with
      | inl h =>
        rw [h]
        exact iff_of_false nofun id
      | inr h =>
        rw [h.1, h.2]
        split
        · rename_i htruthy
          exact iff_of_false (parseActor_ne_self (hjson v rfl).1.parse) (by simp [htruthy])
        · rename_i htruthy
          exact iff_of_true (parseActor_wrapped (hjson v rfl).2.parse) (by simpa using htruthy)

end Outcomes

/-- JavaScript for one value that a method returns, which is not an object, and for one object. -/
private def echo (v obj : Any) : SdkEnv :=
  { quoting with
    text := fun x => if x matches .map _ then "object" else "value"
    parse := fun s => some (if s = "object" then obj else v) }

private def relay : HandlerEnv := ⟨.error, fun _ => [], fun _ => [], "lock"⟩

private def settleOutcome (sdk : SdkEnv) (o : Outcome) : Option Settled :=
  settle sdk relay (fun _ => some (o.reply sdk)) { delivery toItself with invocation := .ok (o.reply sdk) }

/-- A method that returns `false` and leaves another session. -/
private def refuse (_ : Option String) : Outcome × Option String := (.returns (some (.bool false)), none)

private def refusal : SdkEnv := echo (.bool false) (object [("value", some (.bool false))])

private def labelled : Any := object [("tailCall", some (.float64 "1")), ("value", some (.float64 "5"))]

end Kar.Runtime
