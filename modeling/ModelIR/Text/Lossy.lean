/-!
# Reading bytes as text

Bytes are read as UTF-8. What is not well formed is read as U+FFFD, once for every longest part that
begins a character: a byte that cannot go on with the character begun before it is looked at again.
-/

namespace ModelIR.Lossy

/-- What a first byte tells: the bits that it gives to the character, and the ranges in which the
bytes behind it have to lie. None if no character begins with the byte. -/
def lead (b : UInt8) : Option (Nat × List (UInt8 × UInt8)) :=
  let tail := (0x80, 0xBF)
  if b < 0x80 then some (b.toNat, [])
  else if b < 0xC2 then none
  else if b < 0xE0 then some (b.toNat - 0xC0, [tail])
  else if b = 0xE0 then some (0, [(0xA0, 0xBF), tail])
  else if b = 0xED then some (0xD, [(0x80, 0x9F), tail])
  else if b < 0xF0 then some (b.toNat - 0xE0, [tail, tail])
  else if b = 0xF0 then some (0, [(0x90, 0xBF), tail, tail])
  else if b < 0xF4 then some (b.toNat - 0xF0, [tail, tail, tail])
  else if b = 0xF4 then some (4, [(0x80, 0x8F), tail, tail])
  else none

/-- Reads on with the bits so far and the ranges of the bytes that are missing: the character, if
all are there, and what follows. -/
def follow (bits : Nat) : List (UInt8 × UInt8) → List UInt8 → Option Char × List UInt8
  | [], bytes => (some (Char.ofNat bits), bytes)
  | _ :: _, [] => (none, [])
  | (low, high) :: ranges, b :: bytes =>
    if low ≤ b && b ≤ high then follow (bits * 64 + (b.toNat - 0x80)) ranges bytes
    else (none, b :: bytes)

theorem length_follow_le (bits : Nat) (ranges : List (UInt8 × UInt8)) (bytes : List UInt8) :
    (follow bits ranges bytes).2.length ≤ bytes.length := by
  fun_induction follow bits ranges bytes with
  | case1 => simp
  | case2 => simp
  | case3 bits low high ranges b bytes _ ih => exact Nat.le_succ_of_le ih
  | case4 => simp

/-- The character that a byte begins, or U+FFFD, and what follows. -/
def step (b : UInt8) (bytes : List UInt8) : Char × List UInt8 :=
  match lead b with
  | none => ('\uFFFD', bytes)
  | some (bits, ranges) =>
    let (c, rest) := follow bits ranges bytes
    (c.getD '\uFFFD', rest)

theorem length_step_le (b : UInt8) (bytes : List UInt8) :
    (step b bytes).2.length ≤ bytes.length := by
  unfold step
  split
  · simp
  · exact length_follow_le ..

/-- The characters of a sequence of bytes. -/
def chars : List UInt8 → List Char
  | [] => []
  | b :: bytes => (step b bytes).1 :: chars (step b bytes).2
termination_by bytes => bytes.length
decreasing_by exact Nat.lt_succ_of_le (length_step_le b bytes)

/-- The text of a sequence of bytes. -/
def decode (bytes : List UInt8) : String :=
  String.ofList (chars bytes)

end ModelIR.Lossy
