/-!
# Base-128 numbers

A number is written in groups of seven bits, the lowest first; every byte but the last has its
highest bit set. The bytes of a number need not be the fewest, but their count is bounded: a value
has 64 bits and at most ten bytes, and a tag or a length has at most five.
-/

namespace Protolink.Wire

abbrev Bytes := List UInt8

namespace Varint

/-- Writes a number in as few bytes as it needs. -/
def encode (n : Nat) : Bytes :=
  if n < 128 then [UInt8.ofNat n] else UInt8.ofNat (n % 128 + 128) :: encode (n / 128)

/-- Reads the groups of a number of at most `limit` bytes, and returns what follows it. -/
def decodeGroups : Nat → Bytes → Option (Nat × Bytes)
  | 0, _ | _, [] => none
  | limit + 1, b :: bs =>
    if b.toNat < 128 then some (b.toNat, bs)
    else do
      let (n, rest) ← decodeGroups limit bs
      return (b.toNat - 128 + 128 * n, rest)

/-- Reads a number, and returns what follows it. Bits beyond the 64th are dropped. -/
def decode (bs : Bytes) : Option (Nat × Bytes) := do
  let (n, rest) ← decodeGroups 10 bs
  return (n % UInt64.size, rest)

/-- Reads a number of at most five bytes that lies below a bound, and returns what follows it. -/
def decodeShort (bound : Nat) (bs : Bytes) : Option (Nat × Bytes) := do
  let (n, rest) ← decodeGroups 5 bs
  if n < bound then some (n, rest) else none

theorem length_decodeGroups {limit : Nat} {bs rest : Bytes} {n : Nat}
    (h : decodeGroups limit bs = some (n, rest)) : rest.length < bs.length := by
  induction limit generalizing bs n with
  | zero => simp [decodeGroups] at h
  | succ limit ih =>
    cases bs with
    | nil => simp [decodeGroups] at h
    | cons b bs =>
      rw [decodeGroups] at h
      split at h
      · cases h
        simp
      · obtain ⟨⟨m, rest'⟩, hg, he⟩ := Option.bind_eq_some_iff.1 h
        cases he
        exact Nat.lt_succ_of_lt (ih hg)

/-- Reading a number takes at least one byte. -/
theorem length_decode {bs rest : Bytes} {n : Nat} (h : decode bs = some (n, rest)) :
    rest.length < bs.length := by
  obtain ⟨⟨m, rest'⟩, hg, he⟩ := Option.bind_eq_some_iff.1 h
  cases he
  exact length_decodeGroups hg

theorem length_decodeShort {bound : Nat} {bs rest : Bytes} {n : Nat}
    (h : decodeShort bound bs = some (n, rest)) : rest.length < bs.length := by
  obtain ⟨⟨m, rest'⟩, hg, he⟩ := Option.bind_eq_some_iff.1 h
  dsimp only at he
  split at he <;> cases he
  exact length_decodeGroups hg

/-- Reads numbers until nothing is left. -/
def decodeAll (bs : Bytes) : Option (List Nat) :=
  if bs = [] then some []
  else
    match h : decode bs with
    | none => none
    | some (n, rest) =>
      have : rest.length < bs.length := length_decode h
      (decodeAll rest).map (n :: ·)
termination_by bs.length

/-- The signed number of 32 bits that the low bits of a number make. -/
def toInt32 (n : Nat) : Int := Int.bmod n UInt32.size

end Varint

end Protolink.Wire
