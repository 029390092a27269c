import NovaOs.Lib.BigEndian
import NovaOs.Lib.Slice

/-!
The kernel's SHA-256 (`kernel/rust/sha256.rs`): the block function, the streaming hasher with its
buffer of one block, and the one-shot function with its bound on the input.
-/

namespace NovaOs.Sha256

open Slice

/-- A `u32` of the block function. -/
abbrev Word := Fips180.Word

/-- The `[u32; 8]` a hash is chained through, and the block function's variables `a … h`. -/
abbrev State := Fips180.Registers

/-- The longest message the one-shot function takes. -/
def maxInputLen : Nat := 440

/-- Room for the longest message and its padding. -/
def bufferLen : Nat := 512

def h0 : State where
  a := 0x6a09e667
  b := 0xbb67ae85
  c := 0x3c6ef372
  d := 0xa54ff53a
  e := 0x510e527f
  f := 0x9b05688c
  g := 0x1f83d9ab
  h := 0x5be0cd19

def k : List Word := [
  0x428a2f98, 0x71374491, 0xb5c0fbcf, 0xe9b5dba5, 0x3956c25b, 0x59f111f1, 0x923f82a4, 0xab1c5ed5,
  0xd807aa98, 0x12835b01, 0x243185be, 0x550c7dc3, 0x72be5d74, 0x80deb1fe, 0x9bdc06a7, 0xc19bf174,
  0xe49b69c1, 0xefbe4786, 0x0fc19dc6, 0x240ca1cc, 0x2de92c6f, 0x4a7484aa, 0x5cb0a9dc, 0x76f988da,
  0x983e5152, 0xa831c66d, 0xb00327c8, 0xbf597fc7, 0xc6e00bf3, 0xd5a79147, 0x06ca6351, 0x14292967,
  0x27b70a85, 0x2e1b2138, 0x4d2c6dfc, 0x53380d13, 0x650a7354, 0x766a0abb, 0x81c2c92e, 0x92722c85,
  0xa2bfe8a1, 0xa81a664b, 0xc24b8b70, 0xc76c51a3, 0xd192e819, 0xd6990624, 0xf40e3585, 0x106aa070,
  0x19a4c116, 0x1e376c08, 0x2748774c, 0x34b0bcb5, 0x391c0cb3, 0x4ed8aa4a, 0x5b9cca4f, 0x682e6ff3,
  0x748f82ee, 0x78a5636f, 0x84c87814, 0x8cc70208, 0x90befffa, 0xa4506ceb, 0xbef9a3f7, 0xc67178f2]

def rotr (x : Word) (n : Nat) : Word := x.rotateRight n

variable (block : Bytes) (state : State)

/-- The word of four bytes from `off`, the first byte the most significant one. -/
def fromBeBytes (off : Nat) : Word :=
  (block.getD off 0).toBitVec ++ (block.getD (off + 1) 0).toBitVec
    ++ (block.getD (off + 2) 0).toBitVec ++ (block.getD (off + 3) 0).toBitVec

/-- The first sixteen words of `w` are the block's. -/
def loadWords : List Word :=
  (List.range 16).foldl (fun w t => w.set t (fromBeBytes block (t * 4))) (List.replicate 64 0)

/-- One step of the loop that fills the other forty-eight. -/
def extendWord (w : List Word) (t : Nat) : List Word :=
  let s0 := rotr (w.getD (t - 15) 0) 7 ^^^ rotr (w.getD (t - 15) 0) 18 ^^^ (w.getD (t - 15) 0 >>> 3)
  let s1 := rotr (w.getD (t - 2) 0) 17 ^^^ rotr (w.getD (t - 2) 0) 19 ^^^ (w.getD (t - 2) 0 >>> 10)
  w.set t (w.getD (t - 16) 0 + s0 + w.getD (t - 7) 0 + s1)

def words : List Word := (List.range' 16 48).foldl extendWord (loadWords block)

/-- One turn of the loop over the working variables. -/
def mix (w : List Word) (v : State) (t : Nat) : State :=
  let bigS1 := rotr v.e 6 ^^^ rotr v.e 11 ^^^ rotr v.e 25
  let ch := (v.e &&& v.f) ^^^ (~~~v.e &&& v.g)
  let t1 := v.h + bigS1 + ch + k.getD t 0 + w.getD t 0
  let bigS0 := rotr v.a 2 ^^^ rotr v.a 13 ^^^ rotr v.a 22
  let maj := (v.a &&& v.b) ^^^ (v.a &&& v.c) ^^^ (v.b &&& v.c)
  let t2 := bigS0 + maj
  { a := t1 + t2, b := v.a, c := v.b, d := v.c, e := v.d + t1, f := v.e, g := v.f, h := v.g }

/-- What a block of sixty-four bytes makes of the state. -/
def compress (block : Bytes) : State :=
  let v := (List.range 64).foldl (mix (words block)) state
  { a := state.a + v.a, b := state.b + v.b, c := state.c + v.c, d := state.d + v.d,
    e := state.e + v.e, f := state.f + v.f, g := state.g + v.g, h := state.h + v.h }

def processBlock (block : Bytes) : Except Panic State :=
  if block.length = 64 then .ok (compress state block)
  else .error (.assertion "assertion `left == right` failed")

/-- The loop over a padded buffer: one block from every multiple of sixty-four below `totalLen`. -/
def processBuffer (buf : Bytes) (totalLen : Nat) : Except Panic State :=
  (List.range ((totalLen + 63) / 64)).foldlM (fun state i => do
    let offset := 64 * i
    processBlock state (← slice buf offset (offset + 64))) state

/-- The state's words, written one after the other into thirty-two bytes. -/
def emit : Except Panic Bytes :=
  (List.range 8).foldlM (fun out i =>
    copyFromSlice out (i * 4) (i * 4 + 4) (beBytes (n := 4) (state.toList.getD i 0)))
    (List.replicate 32 0)

/-- The end of both hash functions: `data` in a zeroed buffer of `size` bytes, the closing one bit,
the length in bits, the remaining blocks, the digest. -/
def finish (size : Nat) (state : State) (data : Bytes) (bitLen : UInt64) : Except Panic Bytes := do
  let buf ← copyFromSlice (List.replicate size 0) 0 data.length data
  let buf ← setIndex buf data.length 0x80
  let totalLen := ((data.length + 1 + 8 + 63) / 64) * 64
  let buf ← copyFromSlice buf (totalLen - 8) totalLen (beBytes (n := 8) bitLen.toBitVec)
  let state ← processBuffer state buf totalLen
  emit state

/-- A hash in progress. -/
structure Sha256Streaming where
  state : State
  /-- Sixty-four bytes, of which the first `bufferLen` wait for a block to be complete. -/
  buffer : Bytes
  bufferLen : Nat
  /-- The bytes of every update so far. -/
  totalLen : UInt64
  deriving DecidableEq, Repr

namespace Sha256Streaming

def new : Sha256Streaming :=
  { state := h0, buffer := List.replicate 64 0, bufferLen := 0, totalLen := 0 }

variable (self : Sha256Streaming)

/-- Fills the waiting block from the front of `data`, and processes it once it is complete. -/
def topUp (data : Bytes) : Except Panic (Sha256Streaming × Bytes) := do
  let need := 64 - self.bufferLen
  let take := min need data.length
  let buffer ← copyFromSlice self.buffer self.bufferLen (self.bufferLen + take)
    (← slice data 0 take)
  let data ← slice data take data.length
  if self.bufferLen + take = 64 then
    let state ← processBlock self.state buffer
    return ({ self with state, buffer, bufferLen := 0 }, data)
  else
    return ({ self with buffer, bufferLen := self.bufferLen + take }, data)

/-- The loop over the whole blocks of the caller's own slice, with a bound on its turns. -/
def processBlocks : Nat → State → Bytes → Except Panic (State × Bytes)
  | 0, state, data => .ok (state, data)
  | turns + 1, state, data => do
    if 64 ≤ data.length then
      let state ← processBlock state (← slice data 0 64)
      processBlocks turns state (← slice data 64 data.length)
    else
      return (state, data)

/-- A partial block left by an earlier update is topped up first. -/
def refill (data : Bytes) : Except Panic (Sha256Streaming × Bytes) :=
  if 0 < self.bufferLen then self.topUp data else .ok (self, data)

/-- Whatever is left of the slice becomes the new partial block. -/
def stash (data : Bytes) : Except Panic Sha256Streaming := do
  if data.isEmpty then
    return self
  else
    let buffer ← copyFromSlice self.buffer 0 data.length data
    return { self with buffer, bufferLen := data.length }

def update (data : Bytes) : Except Panic Sha256Streaming := do
  let (self, data) ←
    { self with totalLen := self.totalLen + UInt64.ofNat data.length }.refill data
  let (state, data) ← processBlocks data.length self.state data
  { self with state }.stash data

def finalize : Except Panic Bytes := do
  finish 128 self.state (← slice self.buffer 0 self.bufferLen) (self.totalLen * 8)

/-- A fresh hasher updated with one chunk after the other. -/
def digest (chunks : List Bytes) : Except Panic Bytes := do
  (← chunks.foldlM update new).finalize

end Sha256Streaming

/-- The one-shot hash. -/
def sha256 (data : Bytes) : Except Panic Bytes :=
  if data.length ≤ maxInputLen then
    finish bufferLen h0 data (UInt64.ofNat data.length * 8)
  else .error (.assertion "sha256: input exceeds MAX_INPUT_LEN")

end NovaOs.Sha256
