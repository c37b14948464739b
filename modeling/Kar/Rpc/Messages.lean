/-!
# The messages of the rpc layer

The target and message types of `core/pkg/rpc/rpc.go` and
`core/pkg/rpc/messages.go`.  Every message that a node reads comes out of
`decode`, and every message that a node sends goes through `encode`.  The log
of a partition is therefore modelled as a list of decoded messages, and
`Message.wire` is what `decode` gives back for a message that was sent: it
fills in the caller of a call and forgets the fields that no header carries.

An empty string stands for an absent id, as in the source: a target without a
deferred lock, a request without parent or child.  A sequence number starts at
zero and only grows by one, so it is a natural number.
-/

namespace Kar.Rpc

/-- `time.Time` of a deadline: nanoseconds since the epoch, or the zero time. -/
abbrev Deadline := Option Int

/-- Target of an invocation. -/
inductive Target
  | service (name : String)
  | session (name id flow deferredLockID : String)
  | node (id : String)
  deriving DecidableEq, Repr

/-- The lock that a tail call hands over to its target, or `""`. -/
def Target.deferredLockID : Target → String
  | .session _ _ _ lock => lock
  | _ => ""

/-- The target without its deferred lock: `t.DeferredLockID = ""` on a session,
nothing on another target. -/
def Target.clearLock : Target → Target
  | .session name id flow _ => .session name id flow ""
  | t => t

/-- The service that a target asks for. -/
def Target.service? : Target → Option String
  | .service name => some name
  | .session name _ _ _ => some name
  | .node _ => none

/-- A service name has no underscore: `instance` splits the key of a placement
there. -/
def Target.validName (t : Target) : Bool :=
  match t.service? with
  | some name => !name.toList.contains '_'
  | none => true

/-- A call: a request whose caller waits for a response. -/
structure CallRequest where
  requestID : String
  value : List UInt8
  deadline : Deadline
  target : Target
  method : String
  caller : String
  sequence : Nat
  childID : String
  parentID : String
  isEdited : Bool
  deriving DecidableEq, Repr

/-- A tell: a request without response. -/
structure TellRequest where
  requestID : String
  value : List UInt8
  deadline : Deadline
  target : Target
  method : String
  sequence : Nat
  childID : String
  parentID : String
  isEdited : Bool
  deriving DecidableEq, Repr

/-- The response to a call. -/
structure Response where
  requestID : String
  value : List UInt8
  deadline : Deadline
  errMsg : String
  node : String
  deriving DecidableEq, Repr

/-- The completion record of a tell, or of a call whose response is gone. -/
structure Done where
  requestID : String
  deadline : Deadline
  deriving DecidableEq, Repr

/-- The interface `Request`: a call or a tell. -/
inductive Request
  | call (m : CallRequest)
  | tell (m : TellRequest)
  deriving DecidableEq, Repr

/-- The interface `Message`. -/
inductive Message
  | request (m : Request)
  | response (m : Response)
  | done (m : Done)
  deriving DecidableEq, Repr

namespace Request

def requestID : Request → String
  | .call m => m.requestID
  | .tell m => m.requestID

def value : Request → List UInt8
  | .call m => m.value
  | .tell m => m.value

def deadline : Request → Deadline
  | .call m => m.deadline
  | .tell m => m.deadline

def target : Request → Target
  | .call m => m.target
  | .tell m => m.target

def method : Request → String
  | .call m => m.method
  | .tell m => m.method

def sequence : Request → Nat
  | .call m => m.sequence
  | .tell m => m.sequence

def childID : Request → String
  | .call m => m.childID
  | .tell m => m.childID

/-- The parent that a nested blocking call names, or `""`.  Only calls are
collected by `recover`. -/
def callParent : Request → Option String
  | .call m => some m.parentID
  | .tell _ => none

/-- The node that waits for the response of a call. -/
def caller? : Request → Option String
  | .call m => some m.caller
  | .tell _ => none

/-- Whether the request continues a tail-call chain that kept the actor lock. -/
def locked (v : Request) : Bool := v.target.deferredLockID != ""

/-- What a retry of the request has to keep: where it goes, the method and the
payload. -/
def content (v : Request) : Target × String × List UInt8 :=
  (v.target.clearLock, v.method, v.value)

end Request

namespace Message

def requestID : Message → String
  | .request m => m.requestID
  | .response m => m.requestID
  | .done m => m.requestID

def deadline : Message → Deadline
  | .request m => m.deadline
  | .response m => m.deadline
  | .done m => m.deadline

/-- Whether the message is a `Response` or a `Done`: a completion record. -/
def isRecord : Message → Bool
  | .request _ => false
  | _ => true

/-- The sequence number of a request.  A completion record has none. -/
def sequence : Message → Nat
  | .request m => m.sequence
  | _ => 0

end Message

/-- A deadline on the wire counts seconds. -/
def Deadline.wire (d : Deadline) : Deadline := d.map (fun ns => ns / 1000000000 * 1000000000)

/-- `decode` after `encode` on a request, for the node `self` that sends it. -/
def Request.wire (self : String) : Request → Request
  | .call m => .call { m with
      caller := if m.caller = "" then self else m.caller
      deadline := Deadline.wire m.deadline
      isEdited := false }
  | .tell m => .tell { m with
      deadline := Deadline.wire m.deadline
      parentID := ""
      isEdited := false }

/-- `decode` after `encode`, for the node `self` that sends the message. -/
def Message.wire (self : String) : Message → Message
  | .request m => .request (m.wire self)
  | .response m => .response { m with deadline := Deadline.wire m.deadline, node := "" }
  | .done m => .done { m with deadline := Deadline.wire m.deadline }

namespace Request

variable (self : String) (v : Request)

@[simp] theorem requestID_wire : (v.wire self).requestID = v.requestID := by cases v <;> rfl

@[simp] theorem target_wire : (v.wire self).target = v.target := by cases v <;> rfl

@[simp] theorem method_wire : (v.wire self).method = v.method := by cases v <;> rfl

@[simp] theorem value_wire : (v.wire self).value = v.value := by cases v <;> rfl

@[simp] theorem sequence_wire : (v.wire self).sequence = v.sequence := by cases v <;> rfl

@[simp] theorem childID_wire : (v.wire self).childID = v.childID := by cases v <;> rfl

@[simp] theorem callParent_wire : (v.wire self).callParent = v.callParent := by cases v <;> rfl

@[simp] theorem locked_wire : (v.wire self).locked = v.locked := by simp [locked]

@[simp] theorem content_wire : (v.wire self).content = v.content := by simp [content]

end Request

@[simp] theorem Message.requestID_wire (self : String) (m : Message) :
    (m.wire self).requestID = m.requestID := by
  cases m <;> simp [Message.wire, Message.requestID]

@[simp] theorem Message.isRecord_wire (self : String) (m : Message) :
    (m.wire self).isRecord = m.isRecord := by
  cases m <;> rfl

/-- A call of a method of the actor `x` of type `a` from node `n1`, with no
payload.  The concrete logs of the development are made of these. -/
def actorCall (requestID method : String) (sequence : Nat) (lock : String) : Request :=
  .call {
    requestID := requestID
    value := []
    deadline := none
    target := .session "a" "x" "flow" lock
    method := method
    caller := "n1"
    sequence := sequence
    childID := ""
    parentID := ""
    isEdited := false }

@[simp] theorem Target.clearLock_clearLock (t : Target) : t.clearLock.clearLock = t.clearLock := by
  cases t <;> rfl

@[simp] theorem Target.deferredLockID_clearLock (t : Target) : t.clearLock.deferredLockID = "" := by
  cases t <;> rfl

end Kar.Rpc
