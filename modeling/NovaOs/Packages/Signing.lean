import NovaOs.Crypto.Keyed

/-!
Package signatures (`kernel/rust/pkgsign_core.rs`, `kernel/rust/pkgsign.rs`): the hash of header and
payload under a keyed hash, checked against a field of the header itself.
-/

namespace NovaOs.Pkg

open Slice Sha256

def pkgVerifyKey : Bytes := [
  0x4e, 0x6f, 0x76, 0x61, 0x4f, 0x53, 0x2d, 0x70, 0x6b, 0x67, 0x2d, 0x73, 0x69, 0x67, 0x6e, 0x2d,
  0x76, 0x31, 0x2d, 0xa7, 0x3c, 0x91, 0x5d, 0x02, 0xe8, 0x4f, 0x1b, 0x6a, 0xc3, 0x77, 0x0d, 0x29]

def pkgSignatureLen : Nat := 32

/-- The signature of a header, its own signature field zeroed, and a payload. -/
def computeSignature (header payload : Bytes) : Except Panic Bytes := do
  let hasher ← Sha256Streaming.new.update header
  let hasher ← hasher.update payload
  let digest ← hasher.finalize
  hmacSha256 pkgVerifyKey digest

/-- Whether two slices agree in length and in every byte, all of them compared. -/
def constantTimeEq (a b : Bytes) : Bool :=
  if a.length ≠ b.length then false
  else (List.range a.length).foldl (fun diff i => diff ||| (a.getD i 0 ^^^ b.getD i 0)) 0 == 0

/-- Bytes by address, from the start of a buffer on and past its end. -/
abbrev Memory := Nat → UInt8

/-- The slice of `len` bytes at an address. -/
def fromRawParts (memory : Memory) (ptr len : Nat) : Bytes :=
  (List.range len).map fun i => memory (ptr + i)

/-- A header with its signature field zeroed, in a buffer of 256 bytes. -/
def zeroSignature (header : Bytes) (signatureOffset : Nat) : Except Panic Bytes := do
  let zeroed := List.replicate 256 0
  let zeroed ← copyFromSlice zeroed 0 header.length header
  let zeroed ← copyFromSlice zeroed signatureOffset (signatureOffset + pkgSignatureLen)
    (List.replicate pkgSignatureLen 0)
  slice zeroed 0 header.length

/-- Recomputes the signature of the header and the payload at two addresses, and compares it with
the one in the header. -/
def rustPkgVerifySignature (memory : Memory) (headerPtr : Nat) (headerLen signatureOffset : UInt32)
    (payloadPtr : Nat) (payloadLen : UInt32) : Except Panic Bool := do
  -- The sum is taken in the 32 bits of a `usize`.
  if headerLen < signatureOffset + UInt32.ofNat pkgSignatureLen ∨ 256 < headerLen then
    return false
  else
    let header := fromRawParts memory headerPtr headerLen.toNat
    let payload := fromRawParts memory payloadPtr payloadLen.toNat
    let expected ← computeSignature (← zeroSignature header signatureOffset.toNat) payload
    let actual ← slice header signatureOffset.toNat (signatureOffset.toNat + pkgSignatureLen)
    return constantTimeEq expected actual

/-- The signature is the keyed hash of the digest of header and payload together. -/
theorem computeSignature_eq {header payload : Bytes} :
    computeSignature header payload = hmacSha256 pkgVerifyKey (digestOf (header ++ payload)) := by
  obtain ⟨first, updated, represents⟩ :=
    Sha256Streaming.update_represents header Sha256Streaming.new_represents
  obtain ⟨second, finished, final⟩ := Sha256Streaming.update_represents payload represents
  rw [computeSignature, updated, ok_bind, finished, ok_bind, Sha256Streaming.finalize_ok final,
    ok_bind]
  rfl

/-- Signing never fails, and gives thirty-two bytes. -/
theorem computeSignature_returns (header payload : Bytes) :
    Returns (computeSignature header payload) := by
  rw [computeSignature_eq]
  exact hmacSha256_returns (by decide) (by rw [digestOf_length]; decide)

/-- The differences gathered over a range vanish only if every one of them does. -/
theorem gather_eq_zero {a b : Bytes} {positions : List Nat} {diff : UInt8} :
    positions.foldl (fun diff i => diff ||| (a.getD i 0 ^^^ b.getD i 0)) diff = 0
      ↔ diff = 0 ∧ ∀ i ∈ positions, a.getD i 0 = b.getD i 0 := by
  induction positions generalizing diff with
  | nil => simp
  | cons i positions ih =>
    rw [List.foldl_cons, ih, UInt8.or_eq_zero_iff, UInt8.xor_eq_zero_iff, List.forall_mem_cons,
      and_assoc]

/-- The comparison of every byte decides equality. -/
theorem constantTimeEq_iff {a b : Bytes} : constantTimeEq a b = true ↔ a = b := by
  rw [constantTimeEq]
  split
  · rename_i differ
    exact ⟨nofun, fun same => absurd (congrArg List.length same) differ⟩
  rename_i same
  have lengths : a.length = b.length := not_not.mp same
  rw [beq_iff_eq, gather_eq_zero]
  constructor
  · rintro ⟨-, agree⟩
    apply List.ext_getElem lengths
    intro i within _
    simpa [List.getD_eq_getElem?_getD, within, ← lengths] using agree i (List.mem_range.mpr within)
  · rintro rfl
    exact ⟨rfl, fun _ _ => rfl⟩

end NovaOs.Pkg
