import NovaOs.Config.Text
import NovaOs.Lib.Bytes
import Mathlib.Logic.Function.Basic

/-! The formatted output of `kernel/lib/stdio.c`, with the numbers of `kernel/lib/string.c`. -/

namespace NovaOs.Printf

def digits : Bytes := ascii "0123456789ABCDEF"

/-- The digits of a number, the last one first, as many as there is space for. -/
def utoaLoop (base : Nat) : (space num : Nat) → Bytes
  | 0, _ => []
  | space + 1, num =>
    if 0 < num then digits.getD (num % base) 0 :: utoaLoop base space (num / base) else []

def utoa (num base : Nat) : Bytes :=
  if num = 0 then ascii "0" else (utoaLoop base 32 num).reverse

/-- Only in base ten does a number have a sign; otherwise its word is read without one. -/
def itoa (num : Int) (base : Nat) : Bytes :=
  if base = 10 ∧ num < 0 then
    -- Computed this way for the sake of the least number.
    let magnitude := (-(num + 1)).toNat + 1
    45 :: utoa magnitude base
  else utoa (num % 2 ^ 32).toNat base

/-- An argument: a string up to its terminator, or a word. -/
inductive Arg where
  | str (text : Bytes)
  | word (value : UInt32)

/-- What the letter behind a percent sign asks for. -/
inductive Directive where
  | str | dec | unsigned | hex | char | other
  deriving DecidableEq

def Directive.of (letter : UInt8) : Directive :=
  if letter = 115 then .str
  else if letter = 100 then .dec
  else if letter = 117 then .unsigned
  else if letter = 120 then .hex
  else if letter = 99 then .char
  else .other

/-- The buffer, the place for the next character, and how much of the format was looked at. -/
structure Out where
  buffer : Nat → UInt8
  pos : Nat := 0
  seen : Nat := 0

namespace Out

def look (out : Out) : Out :=
  { out with seen := out.seen + 1 }

def put (out : Out) (c : UInt8) : Out :=
  { out with buffer := Function.update out.buffer out.pos c, pos := out.pos + 1 }

/-- The loop that copies a string, up to its terminator or the last place but one. -/
def copy (limit : Nat) : Bytes → Out → Out
  | [], out => out
  | c :: rest, out =>
    if c ≠ 0 ∧ out.pos < limit then copy limit rest (out.put c) else out

/-- One letter behind a percent sign, with the arguments that are left for the next. An argument of
the wrong kind is nothing the function can tell. -/
def directive (limit : Nat) (letter : UInt8) (args : List Arg) (out : Out) :
    Option (List Arg × Out) :=
  match Directive.of letter, args with
  | .str, .str text :: args => some (args, out.copy limit text)
  | .dec, .word value :: args => some (args, out.copy limit (itoa value.toInt32.toInt 10))
  | .unsigned, .word value :: args => some (args, out.copy limit (utoa value.toNat 10))
  | .hex, .word value :: args => some (args, out.copy limit (itoa value.toInt32.toInt 16))
  | .char, .word value :: args => some (args, out.put value.toUInt8)
  | .other, args => some (args, (out.put 37).put letter)
  | _, _ => none

end Out

/-- The loop over the format, from the memory it starts in on. There is no answer if it runs out of
memory. -/
def loop (limit : Nat) : (memory : Bytes) → List Arg → Out → Option Out
  | [], _, _ => none
  | c :: rest, args, out =>
    let out := out.look
    if c = 0 ∨ ¬out.pos < limit then some out
    else if c ≠ 37 then loop limit rest args (out.put c)
    else
      match rest with
      | [] => none
      | letter :: rest =>
        match out.look.directive limit letter args with
        | none => none
        | some (args, out) => loop limit rest args out

/-- The buffer and the length of the text in it. -/
def vsnprintf (buffer : Nat → UInt8) (size : UInt32) (format : Bytes) (args : List Arg) :
    Option Out :=
  match loop (size - 1).toNat format args { buffer := buffer } with
  | none => none
  | some out => some { out with buffer := Function.update out.buffer out.pos 0 }

end NovaOs.Printf
