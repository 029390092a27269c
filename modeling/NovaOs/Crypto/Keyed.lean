import NovaOs.Crypto.Digest

/-!
The keyed functions over the hash (`kernel/rust/hmac_sha256.rs`, `kernel/rust/pbkdf2.rs`), with the
bounds they assert on their arguments.
-/

namespace NovaOs.Sha256

variable {message key password salt : Bytes} {iterations : Nat}

open Slice List

/-- The width of a block of the hash. -/
def blockSize : Nat := 64

def maxKeyLen : Nat := 128

def maxMessageLen : Nat := 256

/-- The key as a whole block: hashed down if it is longer, filled up with zeros if it is shorter. -/
def keyBlock (key : Bytes) : Except Panic Bytes := do
  let block := List.replicate blockSize 0
  if blockSize < key.length then
    let hashed ← sha256 key
    copyFromSlice block 0 32 hashed
  else
    copyFromSlice block 0 key.length key

/-- The hash of a key block mixed with a pad byte, followed by a message in a buffer of `room`. -/
def padHash (room : Nat) (block : Bytes) (pad : UInt8) (message : Bytes) : Except Panic Bytes := do
  let input := block.map (· ^^^ pad) ++ List.replicate room 0
  let input ← copyFromSlice input blockSize (blockSize + message.length) message
  sha256 (← slice input 0 (blockSize + message.length))

def hmacSha256 (key message : Bytes) : Except Panic Bytes := do
  if maxKeyLen < key.length then
    throw (.assertion "hmac_sha256: key exceeds MAX_KEY_LEN")
  if maxMessageLen < message.length then
    throw (.assertion "hmac_sha256: message exceeds MAX_MESSAGE_LEN")
  let block ← keyBlock key
  let innerHash ← padHash maxMessageLen block 0x36 message
  padHash 32 block 0x5c innerHash

def maxSaltLen : Nat := 32

/-- One more iteration: the next value, and the running result with it mixed in. -/
def iterate (password : Bytes) (u result : Bytes) : Except Panic (Bytes × Bytes) := do
  let u ← hmacSha256 password u
  return (u, (List.range 32).map fun i => result.getD i 0 ^^^ u.getD i 0)

/-- The salt followed by the block index one. -/
def saltPlusIndex (salt : Bytes) : Except Panic Bytes := do
  let buf := List.replicate (maxSaltLen + 4) 0
  let buf ← copyFromSlice buf 0 salt.length salt
  let buf ← copyFromSlice buf salt.length (salt.length + 4) [0, 0, 0, 1]
  slice buf 0 (salt.length + 4)

def pbkdf2HmacSha256 (password salt : Bytes) (iterations : Nat) : Except Panic Bytes := do
  if maxSaltLen < salt.length then
    throw (.assertion "pbkdf2: salt exceeds MAX_SALT_LEN")
  if iterations < 1 then
    throw (.assertion "pbkdf2: iterations must be at least 1")
  let u ← hmacSha256 password (← saltPlusIndex salt)
  let (_, result) ← (List.range (iterations - 1)).foldlM
    (fun (u, result) _ => iterate password u result) (u, u)
  return result

/-- Whether a computation returned a digest of thirty-two bytes. -/
def Returns (result : Except Panic Bytes) : Prop := ∃ out, result = .ok out ∧ out.length = 32

@[simp] theorem digestOf_length (message : Bytes) : (digestOf message).length = 32 := by
  rw [digestOf, wordBytes_length]
  rfl

theorem sha256_returns (bound : message.length ≤ maxInputLen) : Returns (sha256 message) :=
  ⟨_, sha256_ok bound, digestOf_length message⟩

theorem keyBlock_ok (bound : key.length ≤ maxKeyLen) :
    ∃ block, keyBlock key = .ok block ∧ block.length = 64 := by
  have short : key.length ≤ 128 := bound
  rw [keyBlock]
  split
  · obtain ⟨hashed, returned, size⟩ := sha256_returns (show key.length ≤ maxInputLen from
      Nat.le_trans bound (by decide))
    rw [returned]
    refine ⟨_, copyFromSlice_ok (by omega) (by decide) (by omega), ?_⟩
    simp [blockSize, size]
  rename_i fits
  have small : key.length ≤ 64 := Nat.not_lt.mp fits
  refine ⟨_, copyFromSlice_ok (by omega) (by simpa [blockSize] using small) (by omega), ?_⟩
  simp only [blockSize, take_zero, nil_append, length_append, length_drop, length_replicate]
  omega

theorem padHash_returns {room : Nat} {block : Bytes} (pad : UInt8) (full : block.length = 64)
    (fits : message.length ≤ room) (short : message.length ≤ 256) :
    Returns (padHash room block pad message) := by
  have width : (block.map (· ^^^ pad) ++ replicate room 0).length = 64 + room := by
    simp [full]
  rw [padHash, copyFromSlice_ok (by omega) (by rw [width, blockSize]; omega) (by omega), ok_bind,
    slice_ok (by omega) (by
      simp only [length_append, length_take, length_drop, width, blockSize]
      omega), ok_bind]
  apply sha256_returns
  simp only [length_take, maxInputLen, blockSize]
  omega

/-- Within its bounds the function returns. -/
theorem hmacSha256_returns (keyBound : key.length ≤ maxKeyLen)
    (messageBound : message.length ≤ maxMessageLen) : Returns (hmacSha256 key message) := by
  obtain ⟨block, made, full⟩ := keyBlock_ok keyBound
  obtain ⟨inner, hashed, size⟩ := padHash_returns 0x36 full messageBound messageBound
  rw [hmacSha256, if_neg (by omega), if_neg (by omega), made]
  simp only [ok_bind, hashed]
  exact padHash_returns 0x5c full (by omega) (by omega)

/-- A key beyond the bound stops the machine. -/
theorem hmacSha256_long (message : Bytes) (long : maxKeyLen < key.length) :
    hmacSha256 key message = .error (.assertion "hmac_sha256: key exceeds MAX_KEY_LEN") := by
  rw [hmacSha256, if_pos long]
  rfl

/-- The iterations after the first all return: every value passed on is a digest. -/
theorem iterate_returns (bound : password.length ≤ maxKeyLen) (turns : List Nat)
    {u result : Bytes} (value : u.length = 32) (running : result.length = 32) :
    ∃ last out, turns.foldlM (fun (u, result) _ => iterate password u result) (u, result)
      = .ok (last, out) ∧ out.length = 32 := by
  induction turns generalizing u result with
  | nil => exact ⟨u, result, rfl, running⟩
  | cons turn turns ih =>
    obtain ⟨next, hashed, size⟩ :=
      hmacSha256_returns bound (show u.length ≤ maxMessageLen by rw [value]; decide)
    rw [foldlM_cons]
    simp only [iterate, hashed, ok_bind]
    exact ih size (by simp)

theorem saltPlusIndex_ok (bound : salt.length ≤ maxSaltLen) :
    ∃ message, saltPlusIndex salt = .ok message ∧ message.length ≤ maxMessageLen := by
  have short : salt.length ≤ 32 := bound
  have width : (replicate (maxSaltLen + 4) (0 : UInt8)).length = 36 := rfl
  rw [saltPlusIndex, copyFromSlice_ok (Nat.zero_le _) (by omega) (by omega), ok_bind]
  -- The buffer keeps its thirty-six bytes, room for the longest salt and the index.
  generalize filled : (replicate (maxSaltLen + 4) (0 : UInt8)).take 0 ++ salt
    ++ (replicate (maxSaltLen + 4) 0).drop salt.length = buf
  have kept : buf.length = 36 := by
    rw [← filled]
    simp only [take_zero, nil_append, length_append, length_drop, width]
    omega
  rw [copyFromSlice_ok (by omega) (by omega) (by simp), ok_bind, slice_ok (Nat.zero_le _) (by
    simp only [length_append, length_take, length_drop, length_cons, length_nil]
    omega)]
  refine ⟨_, rfl, ?_⟩
  simp only [length_take, maxMessageLen]
  omega

/-- Within its bounds the derivation returns. -/
theorem pbkdf2HmacSha256_returns (bound : password.length ≤ maxKeyLen)
    (saltBound : salt.length ≤ maxSaltLen) (positive : 1 ≤ iterations) :
    Returns (pbkdf2HmacSha256 password salt iterations) := by
  obtain ⟨message, made, size⟩ := saltPlusIndex_ok saltBound
  obtain ⟨u, hashed, value⟩ := hmacSha256_returns bound size
  obtain ⟨last, out, iterated, width⟩ :=
    iterate_returns bound (range (iterations - 1)) value value
  rw [pbkdf2HmacSha256, if_neg (by omega), if_neg (by omega)]
  simp only [made, hashed, ok_bind, iterated]
  exact ⟨out, rfl, width⟩

/-- A password beyond the bound on keys stops the machine before the first iteration ends. -/
theorem pbkdf2HmacSha256_long (long : maxKeyLen < password.length)
    (saltBound : salt.length ≤ maxSaltLen) (positive : 1 ≤ iterations) :
    pbkdf2HmacSha256 password salt iterations
      = .error (.assertion "hmac_sha256: key exceeds MAX_KEY_LEN") := by
  obtain ⟨message, made, -⟩ := saltPlusIndex_ok saltBound
  rw [pbkdf2HmacSha256, if_neg (by omega), if_neg (by omega)]
  simp only [made, ok_bind, hmacSha256_long message long]
  rfl

end NovaOs.Sha256
