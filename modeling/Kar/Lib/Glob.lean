import Mathlib

/-!
# Glob-style patterns

The patterns of Redis.  `*` stands for any characters, `?` for one character, `[ae]`, `[^e]` and
`[a-z]` for one character of a set, and a backslash takes the next character as it is.  Every other
character stands for itself.

A pattern is first taken apart into pieces, and the pieces are matched against the characters of
a string.  `glob_star_iff` is the case that programs mean when they append a `*` to a name: such a
pattern matches the strings that begin with the name, provided that the name has no special
character.
-/

namespace Kar.Lib.Glob

open List

/-- A piece of a pattern: `*`, or one character out of a set. -/
inductive Piece where
  | star
  | char (accepts : Char → Bool)

/-- One character that lies in a range, or in none if the set is negated. -/
def Piece.range (negated : Bool) (ranges : List (Char × Char)) : Piece :=
  .char fun d => negated != ranges.any fun r => decide (r.1 ≤ d) && decide (d ≤ r.2)

/-- The pieces of a pattern.  The first argument is the set that is open, with its ranges. -/
def pieces : Option (Bool × List (Char × Char)) → List Char → List Piece
  | none, [] => []
  | none, '*' :: p => .star :: pieces none p
  | none, '?' :: p => .char (fun _ => true) :: pieces none p
  | none, '[' :: '^' :: p => pieces (some (true, [])) p
  | none, '[' :: p => pieces (some (false, [])) p
  | none, '\\' :: c :: p => .char (· == c) :: pieces none p
  | none, c :: p => .char (· == c) :: pieces none p
  | some (negated, ranges), [] => [.range negated ranges]
  | some (negated, ranges), ']' :: p => .range negated ranges :: pieces none p
  | some (negated, ranges), '\\' :: c :: p => pieces (some (negated, (c, c) :: ranges)) p
  | some (negated, ranges), c :: '-' :: d :: p =>
    pieces (some (negated, (min c d, max c d) :: ranges)) p
  | some (negated, ranges), c :: p => pieces (some (negated, (c, c) :: ranges)) p

def matchPieces : List Piece → List Char → Bool
  | [], s => s.isEmpty
  | .star :: p, s => s.tails.any (matchPieces p)
  | .char _ :: _, [] => false
  | .char accepts :: p, d :: s => accepts d && matchPieces p s

/-- Whether the pattern matches the string. -/
def glob (pattern s : String) : Bool := matchPieces (pieces none pattern.toList) s.toList

/-- The characters that stand for more than themselves. -/
def specials : List Char := ['*', '?', '[', '\\']

/-- The name has no special character. -/
def Literal (name : String) : Prop := ∀ c ∈ name.toList, c ∉ specials

instance (name : String) : Decidable (Literal name) :=
  inferInstanceAs (Decidable (∀ c ∈ name.toList, c ∉ specials))

theorem literal_append : Literal (a ++ b) ↔ Literal a ∧ Literal b := by
  simp [Literal, or_imp, forall_and]

/-- A character that is not special is a piece of its own. -/
theorem pieces_cons (hc : c ∉ specials) :
    pieces none (c :: p) = .char (· == c) :: pieces none p := by
  simp only [specials, mem_cons, not_mem_nil, or_false, not_or] at hc
  obtain ⟨hstar, hone, hset, hescape⟩ := hc
  simp [pieces, hset, hescape]

/-- A name without special characters matches itself. -/
theorem matchPieces_literal (h : ∀ c ∈ name, c ∉ specials) :
    matchPieces (pieces none (name ++ p)) s = true ↔
      ∃ r, s = name ++ r ∧ matchPieces (pieces none p) r = true := by
  induction name generalizing s with
  | nil => simp
  | cons c _ ih =>
    rw [cons_append, pieces_cons (h c mem_cons_self)]
    cases s with
    | nil => simp [matchPieces]
    | cons =>
      simp [matchPieces, Bool.and_eq_true, ih (fun c hc => h c (mem_cons_of_mem _
        hc)), cons_append, and_assoc]

/-- A name without special characters and a pattern. -/
theorem glob_append_iff (h : Literal name) (pattern s : String) :
    glob (name ++ pattern) s = true ↔ ∃ r, s = name ++ r ∧ glob pattern r = true := by
  rw [glob, String.toList_append, matchPieces_literal h]
  constructor
  · intro hs
    obtain ⟨r, hr, hmatch⟩ := hs
    refine ⟨String.ofList r, ?_, by rw [glob, String.toList_ofList]; exact hmatch⟩
    rw [← String.toList_inj, hr, String.toList_append, String.toList_ofList]
  · intro hs
    obtain ⟨r, rfl, hmatch⟩ := hs
    exact ⟨r.toList, String.toList_append, hmatch⟩

/-- `*` matches every string. -/
theorem glob_star (s : String) : glob "*" s = true := by
  have hpieces : pieces none "*".toList = [.star] := rfl
  rw [glob, hpieces, matchPieces, any_eq_true]
  exact ⟨[], (mem_tails [] s.toList).mpr nil_suffix, rfl⟩

/-- A name and a `*` match the strings that begin with the name. -/
theorem glob_star_iff (h : Literal name) :
    glob (name ++ "*") s = true ↔ ∃ r, s = name ++ r := by
  rw [glob_append_iff h]
  simp [glob_star]

end Kar.Lib.Glob
