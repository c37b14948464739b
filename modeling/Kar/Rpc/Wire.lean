import Mathlib
import Kar.Lib.GoMap
import Kar.Rpc.Messages

/-!
# The wire format

`encode` and `decode` of `core/pkg/rpc/messages.go`.  A message is a record of the topic: its
payload is the value of the record, and every other field is a header.  The headers are the
entries of a Go map, so they come in any order.

Two fields are written and not read.  `decode` forgets the parent of a tell, which the debugger
looks for in the headers, and the mark of an edited request.  The message that `decode` gives back
is `Message.wire`, which the rest of the development uses.
-/

namespace Kar.Rpc

open Kar.Lib

/-- A record of a topic, as the producer writes it and the consumer reads it. -/
structure Record where
  topic : String
  partition : Nat
  headers : List (String × String)
  value : List UInt8
  deriving DecidableEq, Repr

def Message.value : Message → List UInt8
  | .request m => m.value
  | .response m => m.value
  | .done _ => []

/-! ## Encoding -/

def encodeTarget : Target → List (String × String)
  | .session name id flow lock =>
    [("Service", name), ("Session", id), ("Flow", flow), ("Lock", lock)]
  | .service name => [("Service", name)]
  | .node id => [("Node", id)]

/-- `if m.Sequence != 0 { meta["Sequence"] = strconv.Itoa(m.Sequence) }` -/
def encodeSequence (sequence : Nat) : List (String × String) :=
  if sequence ≠ 0 then [("Sequence", Int.repr sequence)] else []

def encodeEdited (isEdited : Bool) : List (String × String) :=
  if isEdited then [("Edited", "1")] else []

/-- The deadline is written in seconds. -/
def encodeDeadline : Deadline → List (String × String)
  | none => []
  | some ns => [("Deadline", Int.repr (ns / 1000000000))]

/-- The entries of the map `meta`, on the node `self`. -/
def encodeMeta (self : String) : Message → List (String × String)
  | .request (.call m) =>
    [("Type", "Call"), ("RequestID", m.requestID), ("Method", m.method),
      ("Caller", if m.caller = "" then self else m.caller), ("Child", m.childID),
      ("Parent", m.parentID)] ++ encodeSequence m.sequence ++ encodeEdited m.isEdited ++
        encodeTarget m.target
  | .request (.tell m) =>
    [("Type", "Tell"), ("RequestID", m.requestID), ("Method", m.method), ("Child", m.childID),
      ("Parent", m.parentID)] ++ encodeSequence m.sequence ++ encodeEdited m.isEdited ++
        encodeTarget m.target
  | .response m => [("Type", "Response"), ("RequestID", m.requestID), ("ErrMsg", m.errMsg)]
  | .done m => [("Type", "Done"), ("RequestID", m.requestID)]

def encode (self topic : String) (partition : Nat) (msg : Message) : Record where
  topic := topic
  partition := partition
  headers := encodeMeta self msg ++ encodeDeadline msg.deadline
  value := msg.value

/-! ## Decoding -/

/-- `strconv.Atoi` with the error ignored, on what `strconv.Itoa` writes. -/
def atoi (s : String) : Int := s.toInt?.getD 0

def decodeTarget (headers : GoMap String String) : Target :=
  match headers.get? "Session" with
  | some session => .session (headers.getD "Service" "") session (headers.getD "Flow" "")
      (headers.getD "Lock" "")
  | none =>
    match headers.get? "Service" with
    | some service => .service service
    | none => .node (headers.getD "Node" "")

def decodeDeadline (headers : GoMap String String) : Deadline :=
  (headers.get? "Deadline").map fun d => atoi d * 1000000000

def decodeSequence (headers : GoMap String String) : Nat :=
  match headers.get? "Sequence" with
  | some s => (atoi s).toNat
  | none => 0

def decode (msg : Record) : Message :=
  let headers := GoMap.ofList msg.headers
  let deadline := decodeDeadline headers
  let sequence := decodeSequence headers
  if headers.getD "Type" "" = "Call" then
    .request (.call {
      requestID := headers.getD "RequestID" ""
      value := msg.value
      deadline := deadline
      target := decodeTarget headers
      method := headers.getD "Method" ""
      caller := headers.getD "Caller" ""
      sequence := sequence
      childID := headers.getD "Child" ""
      parentID := headers.getD "Parent" ""
      isEdited := false })
  else if headers.getD "Type" "" = "Tell" then
    .request (.tell {
      requestID := headers.getD "RequestID" ""
      value := msg.value
      deadline := deadline
      target := decodeTarget headers
      method := headers.getD "Method" ""
      sequence := sequence
      childID := headers.getD "Child" ""
      parentID := ""
      isEdited := false })
  else if headers.getD "Type" "" = "Response" then
    .response {
      requestID := headers.getD "RequestID" ""
      value := msg.value
      deadline := deadline
      errMsg := headers.getD "ErrMsg" ""
      node := "" }
  else .done { requestID := headers.getD "RequestID" "", deadline := deadline }

/-! ## The round trip -/

theorem get?_encodeSequence (sequence : Nat) (k : String) :
    (GoMap.ofList (encodeSequence sequence)).get? k =
      if k = "Sequence" ∧ sequence ≠ 0 then some (Int.repr sequence) else none := by
  unfold encodeSequence
  by_cases h : sequence = 0 <;> simp [h, GoMap.get?_ofList_cons]

theorem get?_encodeEdited :
    (GoMap.ofList (encodeEdited isEdited)).get? k =
      if k = "Edited" ∧ isEdited = true then some "1" else none := by
  cases isEdited <;> simp [encodeEdited, GoMap.get?_ofList_cons]

theorem get?_encodeDeadline :
    (GoMap.ofList (encodeDeadline deadline)).get? k =
      if k = "Deadline" then deadline.map fun ns => Int.repr (ns / 1000000000) else none := by
  cases deadline <;> simp [encodeDeadline, GoMap.get?_ofList_cons]

/-- The keys of the headers, in the order of `encodeMeta`. -/
def headerNames : List String :=
  ["Type", "RequestID", "Method", "Caller", "Child", "Parent"] ++ ["Sequence"] ++ ["Edited"] ++
    ["Service", "Session", "Flow", "Lock", "Node", "ErrMsg"]

theorem encodeMeta_sublist :
    ((encodeMeta self msg).map Prod.fst).Sublist headerNames := by
  have hsequence : ∀ n, ((encodeSequence n).map Prod.fst).Sublist ["Sequence"] := by
    intro n
    unfold encodeSequence
    split <;> simp
  have hedited : ∀ b, ((encodeEdited b).map Prod.fst).Sublist ["Edited"] := by
    intro b
    unfold encodeEdited
    split <;> simp
  have htarget : ∀ t, ((encodeTarget t).map Prod.fst).Sublist
      ["Service", "Session", "Flow", "Lock", "Node", "ErrMsg"] := by
    intro t
    cases t <;> exact of_decide_eq_true rfl
  cases msg with
  | request m =>
    cases m with
    | call =>
      simp only [encodeMeta, List.map_append]
      exact (((List.Sublist.refl _).append (hsequence _)).append (hedited _)).append (htarget _)
    | tell =>
      simp only [encodeMeta, List.map_append]
      refine ((List.Sublist.append ?_ (hsequence _)).append (hedited _)).append (htarget _)
      exact of_decide_eq_true rfl
  | response => exact of_decide_eq_true rfl
  | done => exact of_decide_eq_true rfl

theorem nodup_encode (self topic : String) (partition : Nat) (msg : Message) :
    ((encode self topic partition msg).headers.map Prod.fst).Nodup := by
  have hdeadline : ((encodeDeadline msg.deadline).map Prod.fst).Sublist ["Deadline"] := by
    cases msg.deadline <;> simp [encodeDeadline]
  have hsublist : ((encode self topic partition msg).headers.map Prod.fst).Sublist
      (headerNames ++ ["Deadline"]) := by
    rw [encode, List.map_append]
    exact (encodeMeta_sublist).append hdeadline
  exact hsublist.nodup (by decide)

theorem atoi_repr (n : Int) : atoi n.repr = n := by
  rw [atoi, Int.toInt?_repr, Option.getD_some]

theorem get?_encodeTarget_eq_none (hk : k ∉ ["Service", "Session", "Flow", "Lock", "Node"]) (t : Target) :
    (GoMap.ofList (encodeTarget t)).get? k = none := by
  refine GoMap.get?_ofList_eq_none fun hmem => hk ?_
  cases t <;> simp_all [encodeTarget]

section Decode

variable {headers : GoMap String String}

/-- The headers of the target come from the target. -/
theorem decodeTarget_eq (h : ∀ k ∈ ["Service", "Session", "Flow", "Lock", "Node"],
    headers.get? k = (GoMap.ofList (encodeTarget t)).get? k) : decodeTarget headers = t := by
  cases t <;> simp [decodeTarget, h, GoMap.getD_eq, encodeTarget, GoMap.get?_ofList_cons]

theorem decodeSequence_eq
    (h : headers.get? "Sequence" = (GoMap.ofList (encodeSequence n)).get? "Sequence") :
    decodeSequence headers = n := by
  rw [decodeSequence, h, get?_encodeSequence]
  by_cases hn : n = 0
  · simp [hn]
  · simp [hn, atoi_repr]

theorem decodeDeadline_eq
    (h : headers.get? "Deadline" = (GoMap.ofList (encodeDeadline d)).get? "Deadline") :
    decodeDeadline headers = Deadline.wire d := by
  rw [decodeDeadline, h, get?_encodeDeadline, if_pos rfl, Option.map_map, Deadline.wire]
  congr 1
  funext ns
  simp [atoi_repr]

end Decode

@[simp] theorem encode_value :
    (encode self topic partition msg).value = msg.value := rfl

/-- What a header of a message is. -/
theorem get?_encode (self topic : String) (partition : Nat) (msg : Message) (k : String) :
    (GoMap.ofList (encode self topic partition msg).headers).get? k = ((GoMap.ofList (encodeDeadline
      msg.deadline)).get? k).or ((GoMap.ofList (encodeMeta self msg)).get? k) :=
  GoMap.get?_ofList_append _ _ _

/-- `decode` gives back what `Message.wire` says. -/
theorem decode_encode (self topic : String) (partition : Nat) (msg : Message) :
    decode (encode self topic partition msg) = msg.wire self := by
  have htarget : ∀ {k}, k ∉ ["Service", "Session", "Flow", "Lock", "Node"] → ∀ t,
      (GoMap.ofList (encodeTarget t)).get? k = none := get?_encodeTarget_eq_none
  have hdeadline : decodeDeadline (GoMap.ofList (encode self topic partition msg).headers) =
      Deadline.wire msg.deadline := by
    refine decodeDeadline_eq ?_
    rw [get?_encode, GoMap.get?_ofList_eq_none fun hmem => absurd
      ((encodeMeta_sublist).subset hmem) (by decide), Option.or_none]
  cases msg with
  | request m =>
    cases m with
    | call m =>
      have hget := fun k => (get?_encode self topic partition (.request (.call m)) k).trans <| by
        rw [get?_encodeDeadline, encodeMeta, GoMap.get?_ofList_append, GoMap.get?_ofList_append,
          GoMap.get?_ofList_append, get?_encodeSequence, get?_encodeEdited]
      simp only [decode, GoMap.getD_eq, hdeadline]
      rw [decodeTarget_eq (t := m.target), decodeSequence_eq (n := m.sequence)]
      · simp [hget, htarget, GoMap.get?_ofList_cons, Message.wire, Request.wire, Message.value,
          Request.value, Message.deadline, Request.deadline]
      · simp [hget, htarget, get?_encodeSequence, GoMap.get?_ofList_cons]
      · simp [hget, GoMap.get?_ofList_cons]
    | tell m =>
      have hget := fun k => (get?_encode self topic partition (.request (.tell m)) k).trans <| by
        rw [get?_encodeDeadline, encodeMeta, GoMap.get?_ofList_append, GoMap.get?_ofList_append,
          GoMap.get?_ofList_append, get?_encodeSequence, get?_encodeEdited]
      simp only [decode, GoMap.getD_eq, hdeadline]
      rw [decodeTarget_eq (t := m.target), decodeSequence_eq (n := m.sequence)]
      · simp [hget, htarget, GoMap.get?_ofList_cons, Message.wire, Request.wire, Message.value,
          Request.value, Message.deadline, Request.deadline]
      · simp [hget, htarget, get?_encodeSequence, GoMap.get?_ofList_cons]
      · simp [hget, GoMap.get?_ofList_cons]
  | response =>
    simp only [decode, GoMap.getD_eq, hdeadline]
    simp [get?_encode, encodeMeta, get?_encodeDeadline, GoMap.get?_ofList_cons, Message.wire,
      Message.value, Message.deadline]
  | done =>
    simp only [decode, GoMap.getD_eq, hdeadline]
    simp [get?_encode, encodeMeta, get?_encodeDeadline, GoMap.get?_ofList_cons, Message.wire,
      Message.deadline]

/-- The broker may return the headers in another order. -/
theorem decode_encode_perm (self topic : String) (partition : Nat) (msg : Message)
    (h : headers.Perm (encode self topic partition msg).headers) :
    decode { encode self topic partition msg with headers := headers } = msg.wire self := by
  rw [← decode_encode self topic partition msg]
  unfold decode
  simp [GoMap.ofList_perm h.symm (nodup_encode self topic partition msg)]

/-! ## What is lost -/

/-- The message that the receiver should get: the caller is filled in, the deadline counts
seconds, and the node that a response is sent to is not kept. -/
def Message.received (self : String) : Message → Message
  | .request (.call m) => .request (.call { m with
      caller := if m.caller = "" then self else m.caller
      deadline := Deadline.wire m.deadline })
  | .request (.tell m) => .request (.tell { m with deadline := Deadline.wire m.deadline })
  | .response m => .response { m with deadline := Deadline.wire m.deadline, node := "" }
  | .done m => .done { m with deadline := Deadline.wire m.deadline }

/-- The message has no field that `decode` forgets. -/
def Message.Plain : Message → Prop
  | .request (.call m) => m.isEdited = false
  | .request (.tell m) => m.parentID = "" ∧ m.isEdited = false
  | .response _ | .done _ => True

/-- **The wire format.**  A message is read as it was written, whatever the order of the headers,
exactly if it is not an edited request and not a tell with a parent. -/
theorem received_iff_plain (self topic : String) (partition : Nat) (msg : Message)
    (headers : List (String × String))
    (h : headers.Perm (encode self topic partition msg).headers) :
    decode { encode self topic partition msg with headers := headers } = msg.received self ↔
      msg.Plain := by
  rw [decode_encode_perm self topic partition msg h]
  cases msg with
  | request m =>
    cases m with
    | call => simp [Message.wire, Request.wire, Message.received, Message.Plain, @eq_comm _ false]
    | tell =>
      simp [Message.wire, Request.wire, Message.received, Message.Plain, @eq_comm _ "",
        @eq_comm _ false]
  | response => simp [Message.wire, Message.received, Message.Plain]
  | done => simp [Message.wire, Message.received, Message.Plain]

/-- A tail call in a chain, from a method of the actor `Account/7` to itself. -/
private def transfer : Message :=
  .request (.call {
    requestID := "r"
    value := [123, 125]
    deadline := some 1500000000
    target := .session "Account" "7" "f" "lock"
    method := "POST"
    caller := ""
    sequence := 2
    childID := "c"
    parentID := "p"
    isEdited := false })

/-- The tail call arrives whole, with its headers reversed. -/
theorem transfer_received :
    decode { encode "node" "app" 0 transfer with
      headers := (encode "node" "app" 0 transfer).headers.reverse } = transfer.received "node" :=
  (received_iff_plain "node" "app" 0 transfer _ (List.reverse_perm _)).mpr rfl

/-- A tell from the request `p`. -/
private def notify : Message :=
  .request (.tell {
    requestID := "r"
    value := []
    deadline := none
    target := .service "audit"
    method := "POST"
    sequence := 0
    childID := ""
    parentID := "p"
    isEdited := false })

/-- The tell arrives without its parent. -/
theorem notify_loses_parent :
    decode (encode "node" "app" 0 notify) ≠ notify.received "node" ∧
      decode (encode "node" "app" 0 notify) = .request (.tell {
        requestID := "r"
        value := []
        deadline := none
        target := .service "audit"
        method := "POST"
        sequence := 0
        childID := ""
        parentID := ""
        isEdited := false }) := by
  rw [decode_encode]
  exact ⟨by decide, rfl⟩

end Kar.Rpc
