import Kar.Lib.Decimal
import Kar.Runtime.HandlerActor

/-!
# Paths into a value

`access` and `replace` of `core/internal/runtime/debug-parser.go`, which the conditions and the edits of a
breakpoint use.  An element of a path is a key of a map, or the numeral of an index of an array.  `replace`
descends like `access` and puts the values back on the way up, where it reads each element of the path a
second time.  One step down and one step up fit together, so the two passes do (`replace_lawful`).  An
array is changed in place in Go; here it is a value.
-/

namespace Kar.Runtime

open Kar.Lib

inductive Fault where
  | error (text : String)
  | panic (text : String)

namespace Any

/-- The switch that each of the three loops makes: what an element of a path addresses, and the assignment
to it.  The last text shows the value, too. -/
def slot (obj : Any) (curQuery : String) : Except Fault (Any × (Any → Any)) :=
  match obj with
  | .slice t =>
    match parseInt 64 curQuery with
    | none => .error (.error "Array accessor must be an int literal")
    | some idx =>
      if t.length ≤ idx then
        .error (.error ("Array accessor " ++ itoa idx ++ " out of bounds for array of length " ++
          itoa t.length))
      -- Only the upper bound is checked.
      else if idx < 0 then .error (.panic ("runtime error: index out of range [" ++ itoa idx ++ "]"))
      else .ok (t.getD idx.toNat .nil, fun v => .slice (t.set idx.toNat v))
  | .map t =>
    match t curQuery with
    | none => .error (.error ("Key " ++ curQuery ++ " not found in map"))
    | some newObj => .ok (newObj, fun v => .map (GoMap.set t curQuery v))
  | _ => .error (.error ("Attempted to access property " ++ curQuery ++ " of a non-map/non-array"))

def access : Any → List String → Except Fault Any
  | obj, [] => .ok obj
  | obj, curQuery :: query => do
    let newObj ← obj.slot curQuery
    newObj.1.access query

/-- The list `objList` after the way down. -/
def descend : Any → List String → Except Fault (List Any)
  | obj, [] => .ok [obj]
  | obj, curQuery :: query => do
    let newObj ← obj.slot curQuery
    let objList ← newObj.1.descend query
    .ok (obj :: objList)

def replace (obj : Any) (query : List String) (newVal : Any) : Except Fault Any := do
  let objList ← descend obj query
  (objList.zip query).foldrM (fun p v => (p.1.slot p.2).map (·.2 v)) newVal

/-- Two elements of a path address the same child. -/
def Same : Any → String → String → Prop
  | .slice _, a, b => parseInt 64 a = parseInt 64 b
  | _, a, b => a = b

/-- Two paths part: neither of their positions is above or below the other. -/
def Apart : Any → List String → List String → Prop
  | obj, a :: q, b :: r => ¬ obj.Same a b ∨ ∃ c put, obj.slot a = .ok (c, put) ∧ c.Apart q r
  | _, _, _ => False

theorem replace_cons (hslot : slot o k = .ok (c, put)) (q : List String) (v : Any) :
    o.replace (k :: q) v = (c.replace q v).map put := by
  simp only [replace, descend, hslot, bind, Except.bind]
  cases c.descend q with
  | error => rfl
  | ok l =>
    simp only [List.zip_cons_cons, List.foldrM_cons, hslot]
    rfl

/-- What an assignment leaves. -/
structure Put (o : Any) (k : String) (put : Any → Any) (v : Any) : Prop where
  slot : (put v).slot k = .ok (v, put)
  same : ∀ b, (put v).Same k b ↔ o.Same k b
  other : ∀ b, ¬ o.Same k b → ((put v).slot b).map Prod.fst = (o.slot b).map Prod.fst

theorem put_of_slot (h : slot o k = .ok (c, put)) : put c = o ∧ ∀ v, Put o k put v := by
  cases o with
  | slice t =>
    obtain ⟨i, hk, hlt, rfl, rfl⟩ : ∃ i : Nat, parseInt 64 k = some ↑i ∧ i < t.length ∧
        t.getD i .nil = c ∧ (fun v => .slice (t.set i v)) = put := by
      unfold slot at h
      grind
    refine ⟨by simp [hlt], fun v => ⟨by simp [slot, hk, hlt, hlt.not_ge], fun _ => .rfl, fun b hb => ?_⟩⟩
    have hne : ∀ j : Int, parseInt 64 b = some j → (i : Int) ≠ j := fun j hj heq => hb (by rw [Same, hk, hj, heq])
    simp only [slot, List.length_set]
    cases hj : parseInt 64 b with
    | none => rfl
    | some j =>
      have hne := hne j hj
      simp only
      split_ifs
      · rfl
      · rfl
      · simp [Except.map, show i ≠ j.toNat by omega]
  | map t =>
    cases hc : t k with
    | none => simp [slot, hc] at h
    | some d =>
      simp only [slot, hc, Except.ok.injEq, Prod.mk.injEq] at h
      obtain ⟨rfl, rfl⟩ := h
      refine ⟨?_, fun v => ⟨by simp [slot, GoMap.set], fun _ => .rfl, fun b hb => ?_⟩⟩
      · show map (Function.update t k (some d)) = _
        rw [← hc, Function.update_eq_self]
      · have hne : b ≠ k := fun heq => hb heq.symm
        cases hb : t b <;> simp [slot, GoMap.set, hne, hb, Except.map]
  | _ => simp [slot] at h

theorem slot_of_same (h : Same o a b) (hc : o.slot a = .ok (c, put)) : o.slot b = .ok (c, put) := by
  cases o with
  | slice t =>
    unfold slot at hc ⊢
    rwa [← show parseInt 64 a = parseInt 64 b from h]
  | _ => exact (show a = b from h) ▸ hc

theorem access_congr (h : (slot o k).map Prod.fst = (slot o' k).map Prod.fst) (q : List String) :
    o.access (k :: q) = o'.access (k :: q) := by
  rw [access, access]
  cases hc : slot o k <;> cases hc' : slot o' k <;> simp_all [Except.map, bind, Except.bind]

/-- `replace` fails where `access` does, with the same error.  Otherwise it is a lawful update: the value
that was there changes nothing, the new value is read back, a second replacement hides the first, and
paths that part from this one see no difference. -/
theorem replace_lawful (o : Any) (q : List String) (v : Any) :
    (∀ e, o.access q = .error e → o.replace q v = .error e) ∧ ∀ x, o.access q = .ok x →
      o.replace q x = .ok o ∧ ∃ o', o.replace q v = .ok o' ∧ o'.access q = .ok v ∧
        (∀ w, o'.replace q w = o.replace q w) ∧ ∀ r, o.Apart q r → o'.access r = o.access r := by
  induction q generalizing o with
  | nil =>
    refine ⟨by simp [access], fun x hx => ?_⟩
    rw [← Except.ok.inj hx]
    exact ⟨rfl, v, rfl, rfl, fun _ => rfl, fun _ hr => hr.elim⟩
  | cons k q ih =>
    cases hc : o.slot k with
    | error e => simp [access, replace, descend, hc, bind, Except.bind]
    | ok s =>
      obtain ⟨c, put⟩ := s
      have haccess : o.access (k :: q) = c.access q := by rw [access, hc]; rfl
      rw [haccess]
      refine ⟨fun e he => by rw [replace_cons hc, (ih c).1 e he]; rfl, fun x hx => ?_⟩
      obtain ⟨hself, c', hreplace, hread, hagain, hapart⟩ := (ih c).2 x hx
      obtain ⟨hkeep, hput⟩ := put_of_slot hc
      have hslot := (hput c').slot
      refine ⟨?_, put c', ?_, ?_, fun w => ?_, fun r hr => ?_⟩
      · rw [replace_cons hc, hself, ← hkeep]
        rfl
      · rw [replace_cons hc, hreplace]
        rfl
      · rw [access, hslot]
        exact hread
      · rw [replace_cons hslot, replace_cons hc, hagain]
      cases r with
      | nil => exact hr.elim
      | cons b r =>
        by_cases hb : o.Same k b
        · obtain ⟨d, put', hd, hr⟩ := hr.resolve_left (not_not_intro hb)
          obtain ⟨rfl, -⟩ := Prod.mk.inj (Except.ok.inj (hc.symm.trans hd))
          rw [access, access, slot_of_same hb hc, slot_of_same (((hput c').same b).mpr hb) hslot]
          exact hapart r hr
        · exact access_congr ((hput c').other b hb) r

end Any

end Kar.Runtime
