import Mathlib.Logic.Function.Basic
import Kar.Rpc.Messages

/-!
# The application topic

One Kafka topic holds the messages of an application.  Partition `0` is
reserved, and each other partition is read by at most one node.  A partition
keeps its records in order from an oldest offset on.  `DeleteRecords` moves the
oldest offset forward and is the only operation that drops a record.
-/

namespace Kar.Rpc

/-- The records of one partition, the first of them at offset `oldest`. -/
structure Partition where
  oldest : Nat
  records : List Message
  deriving DecidableEq, Repr

/-- `GetOffset(appTopic, p, OffsetNewest)`: the offset of the next record. -/
def Partition.newest (p : Partition) : Nat := p.oldest + p.records.length

/-- The record is written at the end. -/
def Partition.append (p : Partition) (m : Message) : Partition :=
  { p with records := p.records ++ [m] }

/-- `DeleteRecords` up to `OffsetNewest`. -/
def Partition.deleteRecords (p : Partition) : Partition :=
  { oldest := p.newest, records := [] }

/-- The partitions of the topic. -/
abbrev Log := Nat → Partition

namespace Log

/-- A new topic: every partition is empty. -/
def empty : Log := fun _ => { oldest := 0, records := [] }

/-- One record is written to partition `p`. -/
def append (log : Log) (p : Nat) (m : Message) : Log :=
  Function.update log p ((log p).append m)

/-- Records are written one after the other. -/
def appendAll (log : Log) (sent : List (Nat × Message)) : Log :=
  sent.foldl (fun log pm => log.append pm.1 pm.2) log

/-- `admin.DeleteRecords(appTopic, offsetsForDeletion)` with `OffsetNewest` for
each of the partitions `ps`. -/
def deleteRecords (log : Log) (ps : List Nat) : Log :=
  fun p => if p ∈ ps then (log p).deleteRecords else log p

/-- The messages of partition `p`. -/
def messages (log : Log) (p : Nat) : List Message := (log p).records

theorem messages_append (log : Log) (p q : Nat) (m : Message) :
    (log.append p m).messages q = if q = p then log.messages p ++ [m] else log.messages q := by
  unfold messages append
  rw [Function.update_apply]
  split <;> rfl

theorem oldest_append (log : Log) (p q : Nat) (m : Message) :
    ((log.append p m) q).oldest = (log q).oldest := by
  unfold append
  rw [Function.update_apply]
  split
  · rename_i h
    rw [h]
    rfl
  · rfl

theorem appendAll_cons (log : Log) (pm : Nat × Message) (sent : List (Nat × Message)) :
    log.appendAll (pm :: sent) = (log.append pm.1 pm.2).appendAll sent := rfl

@[simp] theorem appendAll_nil (log : Log) : log.appendAll [] = log := rfl

theorem appendAll_append (log : Log) (sent sent' : List (Nat × Message)) :
    log.appendAll (sent ++ sent') = (log.appendAll sent).appendAll sent' := by
  simp [appendAll]

theorem oldest_appendAll (log : Log) (sent : List (Nat × Message)) (q : Nat) :
    ((log.appendAll sent) q).oldest = (log q).oldest := by
  induction sent generalizing log with
  | nil => rfl
  | cons _ _ ih => rw [appendAll_cons, ih, oldest_append]

/-- What a partition holds after a series of writes: what it held, then the
messages written to it, in order. -/
theorem messages_appendAll (log : Log) (sent : List (Nat × Message)) (q : Nat) :
    (log.appendAll sent).messages q =
      log.messages q ++ (sent.filter (fun pm => pm.1 = q)).map Prod.snd := by
  induction sent generalizing log with
  | nil => simp
  | cons pm _ ih =>
    rw [appendAll_cons, ih, messages_append]
    by_cases h : q = pm.1
    · subst h
      simp
    · have h' : pm.1 ≠ q := fun he => h he.symm
      simp [h, h']

theorem mem_messages_appendAll {log : Log} {sent : List (Nat × Message)} {q : Nat} {m : Message} :
    m ∈ (log.appendAll sent).messages q ↔ m ∈ log.messages q ∨ (q, m) ∈ sent := by
  rw [messages_appendAll, List.mem_append]
  simp only [List.mem_map, List.mem_filter, decide_eq_true_eq, Prod.exists]
  constructor
  · rintro (h | ⟨p, m', ⟨hmem, rfl⟩, rfl⟩)
    · exact .inl h
    · exact .inr hmem
  · rintro (h | h)
    · exact .inl h
    · exact .inr ⟨q, m, ⟨h, rfl⟩, rfl⟩

/-- A topic that is written below partition `n` only. -/
theorem messages_appendAll_empty (h : ∀ pm ∈ sent, pm.1 < n) (p : Nat) (hp : n ≤ p) :
    (empty.appendAll sent).messages p = [] := by
  rw [messages_appendAll, List.filter_eq_nil_iff.mpr]
  · rfl
  · intro pm hmem
    have := h pm hmem
    simp only [decide_eq_true_eq]
    omega

theorem messages_deleteRecords (log : Log) (ps : List Nat) (p : Nat) :
    (log.deleteRecords ps).messages p = if p ∈ ps then [] else log.messages p := by
  unfold messages deleteRecords
  split <;> rfl

end Log

end Kar.Rpc
