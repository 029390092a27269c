import Mathlib.Data.List.TakeWhile

/-! Lines, words and numbers, as both policy parsers of the kernel read them. -/

namespace NovaOs

/-- The bytes of an ASCII literal. -/
def ascii (literal : String) : List UInt8 :=
  literal.toList.map fun char => UInt8.ofNat char.toNat

/-- Bytes a policy file may hold. -/
def isTextByte (b : UInt8) : Bool :=
  b == 10 || b == 13 || b == 9 || (32 ≤ b && b < 127)

/-- A line without the carriage return that ends it. -/
def stripReturn (raw : List UInt8) : List UInt8 :=
  if raw.getLast? == some 13 then raw.dropLast else raw

/-- What stands before a comment. -/
def stripComment (line : List UInt8) : List UInt8 :=
  line.takeWhile (· != 35)

/-- Blanks and tabs separate words. -/
def isWs (b : UInt8) : Bool :=
  b == 32 || b == 9

/-- Splits the next word off a line. -/
def nextToken (line : List UInt8) : Option (List UInt8 × List UInt8) :=
  match line.dropWhile isWs with
  | [] => none
  | b :: rest => some (b :: rest.takeWhile (!isWs ·), rest.dropWhile (!isWs ·))

/-- Every word takes at least one byte off its line. -/
theorem nextToken_shorter {line token rest : List UInt8}
    (next : nextToken line = some (token, rest)) : rest.length < line.length := by
  unfold nextToken at next
  split at next
  · cases next
  rename_i b tail found
  cases next
  have skipped : (line.dropWhile isWs).length ≤ line.length :=
    (List.dropWhile_suffix _).length_le
  have ended : (tail.dropWhile (!isWs ·)).length ≤ tail.length :=
    (List.dropWhile_suffix _).length_le
  rw [found, List.length_cons] at skipped
  omega

/-- The words of a line, one after another. -/
def tokens (line : List UInt8) : List (List UInt8) :=
  match _next : nextToken line with
  | none => []
  | some (token, rest) => token :: tokens rest
termination_by line.length
decreasing_by exact nextToken_shorter _next

/-- A decimal number of at most ten digits, up to a limit. -/
def parseU32Dec (s : List UInt8) (max : Nat) : Option Nat :=
  if s.isEmpty || s.length > 10 then none
  else
    s.foldlM (fun v b =>
      if 48 ≤ b && b ≤ 57 then
        let v := v * 10 + (b - 48).toNat
        if v > max then none else some v
      else none) 0

/-- Four numbers with dots between them, first number highest. -/
def parseIp (s : List UInt8) : Option UInt32 :=
  let parts := s.splitOn 46
  if parts.length = 4 then
    parts.foldlM (fun ip part => do
      let v ← parseU32Dec part 255
      return (ip <<< 8) ||| UInt32.ofNat v) 0
  else none

end NovaOs
