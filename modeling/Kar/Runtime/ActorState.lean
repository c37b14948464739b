import Kar.Store.Commands

/-!
# The actor-state API

The handlers of `core/internal/runtime/routes-state.go` for the entries of one actor.  The state of
an actor is one Redis hash.  An entry of the state has a key, or a key and a subkey; both kinds are
kept in the same hash, under fields that `flatEntryKey` and `nestedEntryKey` make up from the names
with the separator `_`.

A handler takes the hash of its actor and returns the hash and an HTTP reply, or a panic.
-/

namespace Kar.Runtime

open Kar.Lib Kar.Store

/-! ## Replies -/

/-- An HTTP reply. -/
structure Reply where
  status : Nat
  headers : List (String × String)
  body : String
  deriving DecidableEq, Repr

namespace Reply

/-- `http.Error(w, msg, code)` -/
def error (msg : String) (code : Nat) : Reply where
  status := code
  headers := [("Content-Type", "text/plain; charset=utf-8"), ("X-Content-Type-Options", "nosniff")]
  body := msg ++ "\n"

/-- `w.WriteHeader(code)` -/
def code (code : Nat) : Reply := ⟨code, [], ""⟩

/-- `w.WriteHeader(http.StatusCreated)` with the place of the new entry. -/
def created (location : String) : Reply := ⟨201, [("Location", location)], ""⟩

/-- `fmt.Fprint(w, body)` -/
def text (body : String) : Reply := ⟨200, [], body⟩

/-- `fmt.Fprint(w, body)` with the header of a JSON text. -/
def json (body : String) : Reply := ⟨200, [("Content-Type", "application/json")], body⟩

end Reply

/-- A handler: the state of the actor afterwards, and a reply or a panic. -/
abbrev Handled : Type := StateHash × Except String Reply

/-! ## Names -/

def stateKey (t id : String) : String := "main" ++ "_" ++ "state" ++ "_" ++ t ++ "_" ++ id

def flatEntryKey (key : String) : String := key ++ "_" ++ "_"

def nestedEntryKey (key subkey : String) : String := key ++ "_" ++ subkey

def nestedEntryKeyPrefix (key : String) : String := key ++ "_"

/-- The field of the entry that the parameters `key` and `subkey` of a request name.  The parameter
`subkey` is empty if the path of the request has none. -/
def mangledEntryKey (key subkey : String) : String :=
  if subkey ≠ "" then nestedEntryKey key subkey else flatEntryKey key

/-! ## Single entries -/

def routeImplContainsKey (key subkey : String) (h : StateHash) : Handled :=
  if hExists h (mangledEntryKey key subkey) = 0 then (h, .ok (.error "key not present" 404))
  else (h, .ok (.code 200))

/-- The `Location` header of a new entry. -/
def location (t id key subkey : String) : String :=
  if subkey ≠ "" then
    "/kar/v1/actor/" ++ t ++ "/" ++ id ++ "/state/" ++ key ++ "/" ++ subkey
  else "/kar/v1/actor/" ++ t ++ "/" ++ id ++ "/state/" ++ key

def routeImplSet (t id key subkey body : String) (h : StateHash) : Handled :=
  let r := hSet h (mangledEntryKey key subkey) body
  if r.2 = 1 then (r.1, .ok (.created (location t id key subkey))) else (r.1, .ok (.code 204))

def routeImplGet (key subkey : String) (nilOnAbsent : Bool) (h : StateHash) : Handled :=
  match hGet h (mangledEntryKey key subkey) with
  | none => if nilOnAbsent then (h, .ok (.text "")) else (h, .ok (.error "Not Found" 404))
  | some reply => (h, .ok (.json reply))

def routeImplDel (key subkey : String) (h : StateHash) : Handled :=
  let r := hDel h (mangledEntryKey key subkey)
  (r.1, .ok (.text (toString r.2)))

/-! ## Updates of several entries -/

/-- The body of a multi-element update.  The maps are listed in the order of the iterations over
them, and a value is the text that `json.Marshal` makes of it. -/
structure StateUpdateOp where
  updates : List (String × String) := []
  submapUpdates : List (String × List (String × String)) := []
  removals : List String := []
  submapRemovals : List (String × List String) := []
  deriving DecidableEq, Repr

namespace StateUpdateOp

def toClear (op : StateUpdateOp) : List String :=
  op.removals.map flatEntryKey ++
    op.submapRemovals.flatMap fun r => r.2.map (nestedEntryKey r.1)

/-- The assignments to the map `toUpdate`. -/
def assignments (op : StateUpdateOp) : List (String × String) :=
  op.updates.map (fun u => (flatEntryKey u.1, u.2)) ++
    op.submapUpdates.flatMap fun s => s.2.map fun u => (nestedEntryKey s.1 u.1, u.2)

def toUpdate (op : StateUpdateOp) : StateHash := Hash.ofList op.assignments

end StateUpdateOp

/-- `json.Marshal` of a `response200StateUpdateOp`. -/
def updateResponse (removed added : Nat) : String :=
  "\x7b\"removed\":" ++ toString removed ++ ",\"added\":" ++ toString added ++ "\x7d"

def routeImplStateUpdate (op : StateUpdateOp) (h : StateHash) : Handled :=
  let cleared := if op.toClear.length > 0 then hDelMultiple h op.toClear else .ok (h, 0)
  match cleared with
  | .error panic => (h, .error panic)
  | .ok (h₁, numCleared) =>
    let (h₂, numAdded) :=
      if op.toUpdate.pairs.length > 0 then hSetMultiple h₁ op.toUpdate else (h₁, 0)
    (h₂, .ok (.json (updateResponse numCleared numAdded)))

/-- An update removes and sets its entries, also if it has none to remove or none to set. -/
theorem routeImplStateUpdate_eq (h : StateHash) :
    routeImplStateUpdate op h =
      let cleared := h.remove op.toClear
      let updated := hSetMultiple cleared.1 op.toUpdate
      (updated.1, .ok (.json (updateResponse cleared.2 updated.2))) := by
  have hclear : (if op.toClear.length > 0 then hDelMultiple h op.toClear else .ok (h, 0)) =
      .ok (h.remove op.toClear) := by
    split
    · rename_i hlen
      rw [hDelMultiple, Hash.hdel, if_neg (List.length_pos_iff.mp hlen)]
      rfl
    · have hnil : op.toClear = [] := List.length_eq_zero_iff.mp (by omega)
      rw [hnil]
      rfl
  have hupdate : ∀ h₁, (if op.toUpdate.pairs.length > 0 then hSetMultiple h₁ op.toUpdate
      else (h₁, 0)) = hSetMultiple h₁ op.toUpdate := by
    intro h₁
    split
    · rfl
    · rw [hSetMultiple, if_pos (List.length_eq_zero_iff.mp (by omega))]
  simp [routeImplStateUpdate, hclear, hupdate]

/-! ## Requests -/

/-- A request for entries of the state. -/
inductive StateOp where
  | containsKey (key subkey : String)
  | set (key subkey body : String)
  | get (key subkey : String) (nilOnAbsent : Bool)
  | del (key subkey : String)
  | update (op : StateUpdateOp)
  deriving DecidableEq, Repr

/-- The handler of a request, for the actor `id` of type `t`. -/
def StateOp.handle (t id : String) (h : StateHash) : StateOp → Handled
  | .containsKey key subkey => routeImplContainsKey key subkey h
  | .set key subkey body => routeImplSet t id key subkey body h
  | .get key subkey nilOnAbsent => routeImplGet key subkey nilOnAbsent h
  | .del key subkey => routeImplDel key subkey h
  | .update op => routeImplStateUpdate op h

end Kar.Runtime
