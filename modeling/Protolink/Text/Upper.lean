import Protolink.Text.UpperTable

/-!
# Writing text in upper case
-/

namespace Protolink.Text

/-- The image of a code point in a run, if the run holds it. -/
def CaseRun.map? (run : CaseRun) (n : Nat) : Option Nat :=
  if run.first ≤ n ∧ n ≤ run.last ∧ (n - run.first) % run.stride = 0 then
    some (run.target + (n - run.first))
  else none

/-- The upper-case form of one character; a character without one stays as it is. -/
def upperChar (c : Char) : List Char :=
  match upperSequences.lookup c.toNat with
  | some ns => ns.map Char.ofNat
  | none =>
    match upperRuns.findSome? (·.map? c.toNat) with
    | some n => [Char.ofNat n]
    | none => [c]

/-- The upper-case form of a text, character by character. -/
def upper (s : String) : String := String.ofList (s.toList.flatMap upperChar)

end Protolink.Text
