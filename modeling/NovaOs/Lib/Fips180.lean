import Mathlib.Algebra.Group.Nat.Defs
import Mathlib.Data.Nat.Find
import Mathlib.Data.Nat.NthRoot.Defs
import NovaOs.Lib.Blocks

/-!
SHA-256 as FIPS 180-4 defines it: a function from bit strings to bit strings, with its constants
given by the roots of primes they are the digits of.
-/

namespace NovaOs.Fips180

/-- A 32-bit word of the standard. -/
abbrev Word := BitVec 32

/-- Eight words: an intermediate hash value `H₀ … H₇`, or the working variables `a … h`. -/
@[ext] structure Registers where
  a : Word
  b : Word
  c : Word
  d : Word
  e : Word
  f : Word
  g : Word
  h : Word
  deriving DecidableEq, Repr

/-- The eight words in order. -/
def Registers.toList (r : Registers) : List Word := [r.a, r.b, r.c, r.d, r.e, r.f, r.g, r.h]

/-! Bit strings, section 3.1: the leftmost bit is the most significant one. -/

/-- The bits of a word, leftmost first. -/
def toBits {w : Nat} (x : BitVec w) : List Bool := (List.range w).map x.getMsbD

/-- The word that a string of 32 bits spells. -/
def ofBits (bits : List Bool) : Word := (BitVec.ofBoolListBE bits).setWidth 32

/-! Functions and constants, section 4. -/

/-- Rotation to the right by `n` positions. -/
def rotr (n : Nat) (x : Word) : Word := (x >>> n) ||| (x <<< (32 - n))

def ch (x y z : Word) : Word := (x &&& y) ^^^ (~~~x &&& z)

def maj (x y z : Word) : Word := (x &&& y) ^^^ (x &&& z) ^^^ (y &&& z)

def bigSigma0 (x : Word) : Word := rotr 2 x ^^^ rotr 13 x ^^^ rotr 22 x

def bigSigma1 (x : Word) : Word := rotr 6 x ^^^ rotr 11 x ^^^ rotr 25 x

def smallSigma0 (x : Word) : Word := rotr 7 x ^^^ rotr 18 x ^^^ (x >>> 3)

def smallSigma1 (x : Word) : Word := rotr 17 x ^^^ rotr 19 x ^^^ (x >>> 10)

/-- The first thirty-two bits of the fractional part of the `n`-th root of `p`. -/
def rootFraction (n p : Nat) : Word :=
  -- Scaling by `2 ^ (32 * n)` moves those bits before the binary point.
  BitVec.ofNat 32 (Nat.nthRoot n (p * 2 ^ (32 * n)))

/-- The first sixty-four primes. -/
def primes : List Nat := [
  2, 3, 5, 7, 11, 13, 17, 19, 23, 29, 31, 37, 41, 43, 47, 53, 59, 61, 67, 71, 73, 79, 83, 89,
  97, 101, 103, 107, 109, 113, 127, 131, 137, 139, 149, 151, 157, 163, 167, 173, 179, 181,
  191, 193, 197, 199, 211, 223, 227, 229, 233, 239, 241, 251, 257, 263, 269, 271, 277, 281,
  283, 293, 307, 311]

/-- The constant of round `t`: the fractional part of the cube root of prime number `t`. -/
def constant (t : Nat) : Word := rootFraction 3 (primes.getD t 0)

/-- The initial hash value: the fractional parts of the square roots of the first eight primes. -/
def initial : Registers where
  a := rootFraction 2 2
  b := rootFraction 2 3
  c := rootFraction 2 5
  d := rootFraction 2 7
  e := rootFraction 2 11
  f := rootFraction 2 13
  g := rootFraction 2 17
  h := rootFraction 2 19

/-! Preprocessing, section 5. -/

theorem exists_zeros (length : Nat) : ∃ k, (length + 1 + k) % 512 = 448 :=
  ⟨(959 - length % 512) % 512, by omega⟩

/-- The number of zero bits after the closing one bit: the least that leaves 64 bits of a block. -/
def zeros (length : Nat) : Nat := Nat.find (exists_zeros length)

/-- The message, a one bit, zero bits, and the message's length in 64 bits. -/
def pad (message : List Bool) : List Bool :=
  message ++ true :: List.replicate (zeros message.length) false
    ++ toBits (BitVec.ofNat 64 message.length)

/-- Word number `t` of a block of 512 bits. -/
def inputWord (bits : List Bool) (t : Nat) : Word := ofBits ((bits.drop (32 * t)).take 32)

/-! Computation, section 6.2.2. -/

/-- Word number `t` of the message schedule. -/
def schedule (bits : List Bool) (t : Nat) : Word :=
  if t < 16 then inputWord bits t
  else smallSigma1 (schedule bits (t - 2)) + schedule bits (t - 7)
    + smallSigma0 (schedule bits (t - 15)) + schedule bits (t - 16)

/-- One of the sixty-four rounds, with its constant and its schedule word. -/
def round (k w : Word) (v : Registers) : Registers :=
  let t1 := v.h + bigSigma1 v.e + ch v.e v.f v.g + k + w
  let t2 := bigSigma0 v.a + maj v.a v.b v.c
  { a := t1 + t2, b := v.a, c := v.b, d := v.c, e := v.d + t1, f := v.e, g := v.f, h := v.g }

/-- Two hash values added word by word. -/
def Registers.add (x y : Registers) : Registers :=
  { a := x.a + y.a, b := x.b + y.b, c := x.c + y.c, d := x.d + y.d,
    e := x.e + y.e, f := x.f + y.f, g := x.g + y.g, h := x.h + y.h }

/-- The next hash value, from the last one and a block of 512 bits. -/
def compress (hash : Registers) (bits : List Bool) : Registers :=
  hash.add ((List.range 64).foldl (fun v t => round (constant t) (schedule bits t) v) hash)

/-- The SHA-256 digest of a bit string, which the standard defines below `2 ^ 64` bits. -/
def sha256 (message : List Bool) : Option (List Bool) :=
  if message.length < 2 ^ 64 then
    some ((Blocks.absorb compress 512 initial (pad message)).toList.flatMap toBits)
  else none

/-! How bit strings and words fit together. -/

@[simp] theorem toBits_length {w : Nat} (x : BitVec w) : (toBits x).length = w := by
  simp [toBits]

theorem toBits_getElem? {w : Nat} (x : BitVec w) {i : Nat} :
    (toBits x)[i]? = if i < w then some (x.getMsbD i) else none := by
  simp only [toBits, List.getElem?_map]
  split
  · rename_i within
    rw [List.getElem?_range within, Option.map_some]
  · rename_i outside
    rw [List.getElem?_eq_none (by simpa using outside), Option.map_none]

/-- The bits of two words side by side. -/
theorem toBits_append {v w : Nat} (x : BitVec v) (y : BitVec w) :
    toBits (x ++ y) = toBits x ++ toBits y := by
  apply List.ext_getElem?
  intro i
  rw [List.getElem?_append, toBits_length, toBits_getElem?, toBits_getElem?, toBits_getElem?,
    BitVec.getMsbD_append]
  -- The position lies in the left word, in the right one, or past both.
  by_cases left : i < v
  · simp [left, show i < v + w by omega, show ¬ v ≤ i by omega]
  · by_cases right : i < v + w
    · simp [left, right, show v ≤ i by omega, show i - v < w by omega]
    · simp [left, right, show ¬ i - v < w by omega]

/-- Thirty-two bits spell the word they were read from. -/
@[simp] theorem ofBits_toBits {x : Word} : ofBits (toBits x) = x := by
  apply BitVec.eq_of_getMsbD_eq
  intro i within
  -- The string is as wide as the word, so the change of width does nothing.
  rw [ofBits, BitVec.getMsbD_setWidth]
  simp only [toBits_length, BitVec.getMsbD_ofBoolListBE, List.getD_eq_getElem?_getD,
    toBits_getElem?]
  simp [within]

/-- The number of zero bits, solved for. -/
theorem zeros_eq {length : Nat} : zeros length = (959 - length % 512) % 512 := by
  rw [zeros, Nat.find_eq_iff]
  refine ⟨by omega, fun k fewer => ?_⟩
  omega

end NovaOs.Fips180
