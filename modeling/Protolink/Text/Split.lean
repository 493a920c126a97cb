/-!
# Cutting text at a character

Texts are cut as lists of characters, so that every cut comes with the equation that puts the
parts together again.
-/

namespace Protolink.Text

/-- The stretches between the occurrences of `sep`; there is always at least one. -/
def pieces (sep : Char) : List Char → List (List Char)
  | [] => [[]]
  | c :: cs => if c = sep then [] :: pieces sep cs else (pieces sep cs).modifyHead (c :: ·)

/-- What stands before the first `sep`, or everything. -/
def beforeFirst (sep : Char) (cs : List Char) : List Char := cs.takeWhile (· != sep)

/-- What stands after the first `sep`, or nothing. -/
def afterFirst (sep : Char) (cs : List Char) : List Char := (cs.dropWhile (· != sep)).drop 1

/-- The two sides of the last `sep`, if there is one. -/
def cutLast? (sep : Char) (cs : List Char) : Option (List Char × List Char) :=
  match cs.reverse.dropWhile (· != sep) with
  | [] => none
  | _ :: before => some (before.reverse, (cs.reverse.takeWhile (· != sep)).reverse)

/-- The text without `ending`, if it ends so. -/
def dropEnding? (ending cs : List Char) : Option (List Char) :=
  if ending.isSuffixOf cs then some (cs.take (cs.length - ending.length)) else none

/-- The text without `ending`, if it ends so, and otherwise as it is. -/
def dropEnding (ending cs : List Char) : List Char := (dropEnding? ending cs).getD cs

/-- Replaces occurrences of `old` from the left, after the first `skip` characters are dropped. -/
def replaceFrom (old new : List Char) : Nat → List Char → List Char
  | _, [] => []
  | skip + 1, _ :: cs => replaceFrom old new skip cs
  | 0, c :: cs =>
    if old.isPrefixOf (c :: cs) then new ++ replaceFrom old new (old.length - 1) cs
    else c :: replaceFrom old new 0 cs

/-- Replaces the occurrences of a non-empty text from the left; they do not overlap. -/
def replace (old new cs : List Char) : List Char := replaceFrom old new 0 cs

theorem dropEnding?_append (ending cs : List Char) :
    dropEnding? ending (cs ++ ending) = some cs := by
  have ends : ending.isSuffixOf (cs ++ ending) = true :=
    List.isSuffixOf_iff_suffix.mpr (List.suffix_append cs ending)
  rw [dropEnding?, if_pos ends, List.length_append, Nat.add_sub_cancel, List.take_left]

theorem dropEnding?_of_not {ending cs : List Char} (h : ¬ending <:+ cs) :
    dropEnding? ending cs = none :=
  if_neg fun ends => h (List.isSuffixOf_iff_suffix.mp ends)

@[simp] theorem pieces_nil (sep : Char) : pieces sep [] = [[]] := rfl

theorem pieces_ne_nil (sep : Char) (cs : List Char) : pieces sep cs ≠ [] := by
  induction cs with
  | nil => simp
  | cons c cs ih =>
    rw [pieces]
    split
    · simp
    · cases h : pieces sep cs with
      | nil => exact absurd h ih
      | cons p ps => simp

end Protolink.Text
