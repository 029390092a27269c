import NovaOs.Crypto.Compression

/-!
Both hash functions compute the standard's digest: the streaming one through an invariant of its
buffer that no chunking of the message can break, the one-shot one for every message it takes.
-/

namespace NovaOs.Sha256

variable {message : Bytes} {ws : List Word} {state : State} {bitLen : UInt64} {bytes : Bytes}

open Slice Blocks List

theorem processBlock_ok {block : Bytes} (full : block.length = 64) (state : State) :
    processBlock state block = .ok (compress state block) := if_pos full

/-- The loop over a padded buffer consumes its first `totalLen` bytes, block by block. -/
theorem processBuffer_ok (state : State) {buf : Bytes} {totalLen : Nat}
    (whole : totalLen % 64 = 0) (fits : totalLen ≤ buf.length) :
    processBuffer state buf totalLen
      = .ok (absorb compress 64 state (buf.take totalLen)) := by
  have size : (buf.take totalLen).length = totalLen := length_take_of_le fits
  rw [processBuffer, absorb, size, show (totalLen + 63) / 64 = totalLen / 64 by omega]
  apply foldlM_ok
  intro s i member
  -- Turn `i` reads block `i`.
  have within : i < totalLen / 64 := mem_range.mp member
  have read : slice buf (64 * i) (64 * i + 64) = .ok (block 64 (buf.take totalLen) i) := by
    rw [slice_ok (by omega) (by omega), block, drop_take, take_take]
    congr 2
    omega
  have full : (block 64 (buf.take totalLen) i).length = 64 :=
    block_length 64 _ i (by rw [size]; exact within)
  simp only [read, ok_bind, processBlock_ok full s]

/-- The bytes of a row of words. -/
def wordBytes (ws : List Word) : Bytes := ws.flatMap (beBytes (n := 4))

theorem wordBytes_append {vs : List Word} :
    wordBytes (ws ++ vs) = wordBytes ws ++ wordBytes vs :=
  flatMap_append

@[simp] theorem wordBytes_length : (wordBytes ws).length = 4 * ws.length := by
  induction ws with
  | nil => rfl
  | cons w ws ih =>
    rw [wordBytes, flatMap_cons, length_append, beBytes_length, length_cons]
    change 4 + (wordBytes ws).length = _
    omega

/-- After `m` words, the first `4 * m` bytes are written and the others are still zero. -/
theorem write_ok (ws : List Word) (m : Nat) (bound : m ≤ ws.length) :
    (range m).foldlM (fun out i =>
        copyFromSlice out (i * 4) (i * 4 + 4) (beBytes (n := 4) (ws.getD i 0)))
      (replicate (4 * ws.length) 0)
      = .ok (wordBytes (ws.take m) ++ replicate (4 * ws.length - 4 * m) 0) := by
  induction m with
  | zero => simp [wordBytes, pure, Except.pure]
  | succ m ih =>
    have size : (wordBytes (ws.take m)).length = m * 4 := by
      rw [wordBytes_length, length_take_of_le (by omega), Nat.mul_comm]
    have next : ws.take (m + 1) = ws.take m ++ [ws.getD m 0] := by
      rw [take_succ_eq_append_getElem (by omega), getD_eq_getElem?_getD,
        getElem?_eq_getElem (by omega), Option.getD_some]
    rw [range_succ, foldlM_append, ih (by omega), ok_bind, foldlM_cons,
      copyFromSlice_ok (by omega)
      (by rw [length_append, size, length_replicate]; omega)
      (by rw [beBytes_length]; omega)]
    -- What was written stays, the new word follows, four zeros less remain.
    rw [take_left' size, ← drop_drop, drop_left' size, drop_replicate,
      next, wordBytes_append, show 4 * ws.length - 4 * (m + 1) = 4 * ws.length - 4 * m - 4 by omega]
    simp [wordBytes, pure, Except.pure]

/-- The digest is the eight words, each as four bytes. -/
theorem emit_ok : emit state = .ok (wordBytes state.toList) := by
  have all := write_ok state.toList 8 (Nat.le_refl 8)
  rw [take_of_length_le (show state.toList.length ≤ 8 from Nat.le_refl 8)] at all
  exact all.trans (congrArg Except.ok (append_nil _))

/-- What follows `n` bytes: a closing one bit, zeros up to the last eight bytes of a block, and
eight bytes of length. -/
def closing (n : Nat) (bitLen : UInt64) : Bytes :=
  0x80 :: List.replicate ((n + 72) / 64 * 64 - 9 - n) 0 ++ beBytes (n := 8) bitLen.toBitVec

/-- Whole blocks before the end do not change what follows it. -/
theorem closing_mod {n : Nat} : closing (n % 64) bitLen = closing n bitLen := by
  rw [closing, closing,
    show (n % 64 + 72) / 64 * 64 - 9 - n % 64 = (n + 72) / 64 * 64 - 9 - n by omega]

/-- Both hash functions end by consuming their data with its padding. -/
theorem finish_ok {size : Nat} (state : State) {data : Bytes}
    (room : (data.length + 72) / 64 * 64 ≤ size) :
    finish size state data bitLen
      = .ok (wordBytes (absorb compress 64 state
          (data ++ closing data.length bitLen)).toList) := by
  have last : 8 ≤ (data.length + 72) / 64 * 64 := by omega
  generalize total : (data.length + 72) / 64 * 64 = totalLen at room last
  -- The data over zeros, then the closing one bit.
  have copied : copyFromSlice (replicate size (0 : UInt8)) 0 data.length data
      = .ok (data ++ replicate (size - data.length) 0) := by
    rw [copyFromSlice_ok (by omega) (by rw [length_replicate]; omega) (by omega)]
    simp
  have closed : setIndex (data ++ replicate (size - data.length) 0) data.length 0x80
      = .ok (data ++ 0x80 :: replicate (size - data.length - 1) 0) := by
    rw [setIndex_ok _ (by rw [length_append, length_replicate]; omega),
      set_append_right _ _ (Nat.le_refl _), Nat.sub_self,
      show size - data.length = size - data.length - 1 + 1 by omega, replicate_succ, set_cons_zero]
    rfl
  -- The length goes into the last eight bytes of the last block.
  have zeroes : (data ++ 0x80 :: replicate (size - data.length - 1) 0).take (totalLen - 8)
      = data ++ 0x80 :: replicate (totalLen - 9 - data.length) (0 : UInt8) := by
    rw [take_append, take_of_length_le (by omega),
      show totalLen - 8 - data.length = totalLen - 9 - data.length + 1 by omega,
      take_succ_cons, take_replicate,
      Nat.min_eq_left (show totalLen - 9 - data.length ≤ size - data.length - 1 by omega)]
  have tail : ((data ++ 0x80 :: replicate (size - data.length - 1) (0 : UInt8)).take
      (totalLen - 8)).length = totalLen - 8 := by
    rw [length_take, length_append, length_cons, length_replicate]
    omega
  rw [finish, copied, ok_bind, closed, ok_bind]
  simp only [show data.length + 1 + 8 + 63 = data.length + 72 by omega, total]
  rw [copyFromSlice_ok (by omega) (by
      rw [length_append, length_cons, length_replicate]; omega)
      (by rw [beBytes_length]; omega), ok_bind,
    processBuffer_ok state (by omega) (by
      simp only [length_append, tail, beBytes_length, length_drop, length_cons, length_replicate]
      omega), ok_bind, emit_ok]
  -- The blocks end where the length does.
  rw [take_left' (by rw [length_append, tail, beBytes_length]; omega), zeroes, closing,
    total, append_assoc, cons_append]

namespace Sha256Streaming

variable {self : Sha256Streaming}

/-- The bytes waiting for a block to be complete. -/
def pending (self : Sha256Streaming) : Bytes := self.buffer.take self.bufferLen

/-- The hasher stands where a message of whole blocks and waiting bytes has taken it. -/
structure Represents (hasher : Sha256Streaming) (message : Bytes) : Prop where
  state : hasher.state = Blocks.absorb compress 64 h0 message
  pending : hasher.pending = Blocks.rest 64 message
  occupied : hasher.bufferLen = message.length % 64
  width : hasher.buffer.length = 64
  counted : hasher.totalLen = UInt64.ofNat message.length

theorem new_represents : new.Represents [] where
  state := rfl
  pending := rfl
  occupied := rfl
  width := rfl
  counted := rfl

/-- The loop over the caller's slice consumes its whole blocks and leaves the rest. -/
theorem processBlocks_ok (turns : Nat) (state : State) (data : Bytes)
    (enough : data.length / 64 ≤ turns) :
    processBlocks turns state data
      = .ok (absorb compress 64 state data, rest 64 data) := by
  induction turns generalizing state data with
  | zero =>
    have short : data.length < 64 := by omega
    rw [processBlocks, absorb_short _ _ _ short, rest_short _ short]
  | succ turns ih =>
    rw [processBlocks]
    split
    · rename_i whole
      have size : (data.take 64).length = 64 := length_take_of_le whole
      have tail : (data.drop 64).take (data.length - 64) = data.drop 64 :=
        take_of_length_le (Nat.le_of_eq length_drop)
      rw [slice_ok (by omega) whole, slice_ok whole (Nat.le_refl _), tail,
        absorb_step compress 64 state (by omega) whole, rest_step 64 (by omega) whole]
      simp only [drop_zero, Nat.sub_zero, ok_bind, processBlock_ok size]
      exact ih _ _ (by rw [length_drop]; omega)
    · rename_i short
      rw [absorb_short _ _ _ (by omega), rest_short _ (by omega)]
      rfl

/-- What filling the waiting block leaves to do: the same bytes lie ahead, in the buffer or in the
slice, and the loop over the slice starts with an empty buffer or finds nothing to do. -/
structure Refilled (hasher : Sha256Streaming) (data : Bytes) (after : Sha256Streaming × Bytes) :
    Prop where
  ahead : Blocks.absorb compress 64 after.1.state (after.1.pending ++ after.2)
    = Blocks.absorb compress 64 hasher.state (hasher.pending ++ data)
  left : Blocks.rest 64 (after.1.pending ++ after.2) = Blocks.rest 64 (hasher.pending ++ data)
  one : after.1.bufferLen = 0 ∨ after.2 = []
  short : after.1.bufferLen < 64
  width : after.1.buffer.length = 64
  counted : after.1.totalLen = hasher.totalLen

theorem topUp_ok (data : Bytes) (short : self.bufferLen < 64) (width : self.buffer.length = 64) :
    ∃ after, self.topUp data = .ok after ∧ self.Refilled data after := by
  have waiting : self.pending.length = self.bufferLen := by
    rw [pending, length_take_of_le (by omega)]
  generalize taken : min (64 - self.bufferLen) data.length = take
  have fits : take ≤ data.length := by omega
  -- The buffer's first bytes are now the waiting ones followed by those taken.
  have copied : copyFromSlice self.buffer self.bufferLen (self.bufferLen + take) (data.take take)
      = .ok (self.pending ++ data.take take ++ self.buffer.drop (self.bufferLen + take)) :=
    copyFromSlice_ok (by omega) (by omega) (by rw [length_take_of_le fits]; omega)
  have filled : (self.pending ++ data.take take).length = self.bufferLen + take := by
    rw [length_append, waiting, length_take_of_le fits]
  have tail : (data.drop take).take (data.length - take) = data.drop take :=
    take_of_length_le (Nat.le_of_eq length_drop)
  have all : self.pending ++ data = self.pending ++ data.take take ++ data.drop take := by
    rw [append_assoc, take_append_drop]
  simp only [topUp, taken, slice_ok (Nat.zero_le take) fits, slice_ok fits (Nat.le_refl _), tail,
    drop_zero, Nat.sub_zero, ok_bind, copied]
  generalize joined : self.pending ++ data.take take = block at copied filled all
  by_cases complete : self.bufferLen + take = 64
  · -- The block is complete: it is consumed, and the buffer is empty.
    have whole : block ++ self.buffer.drop (self.bufferLen + take) = block := by
      rw [drop_of_length_le (by omega), append_nil]
    rw [if_pos complete, whole, processBlock_ok (by omega), ok_bind]
    obtain ⟨next, consumed⟩ : ∃ next, compress self.state block = next := ⟨_, rfl⟩
    rw [consumed]
    refine ⟨_, rfl, ?_⟩
    have first : (block ++ data.drop take).take 64 = block := take_left' (by omega)
    have later : (block ++ data.drop take).drop 64 = data.drop take := drop_left' (by omega)
    have long : 64 ≤ (block ++ data.drop take).length := by rw [length_append]; omega
    exact {
      ahead := by
        rw [all, absorb_step _ _ _ (by omega) long, first, later, consumed]
        simp only [pending, take_zero, nil_append]
      left := by
        rw [all, rest_step _ (by omega) long, later]
        simp only [pending, take_zero, nil_append]
      one := .inl rfl
      short := Nat.zero_lt_succ 63
      width := filled.trans complete
      counted := rfl }
  · -- The slice is used up before the block is complete.
    rw [if_neg complete]
    have spent : data.drop take = [] := drop_of_length_le (by omega)
    refine ⟨_, rfl, ?_⟩
    have buffered : (block ++ self.buffer.drop (self.bufferLen + take)).take (self.bufferLen + take)
        = block := take_left' filled
    exact {
      ahead := by rw [all]; simp only [pending, buffered]
      left := by rw [all]; simp only [pending, buffered]
      one := .inr spent
      short := by simp only; omega
      width := by simp only [length_append, filled, length_drop]; omega
      counted := rfl }

/-- With an empty buffer the filling is skipped, which leaves the same to do. -/
theorem refill_ok (self : Sha256Streaming) (data : Bytes) (short : self.bufferLen < 64)
    (width : self.buffer.length = 64) :
    ∃ after, self.refill data = .ok after ∧ self.Refilled data after := by
  rw [refill]
  split
  · exact topUp_ok data short width
  · exact ⟨_, rfl, ⟨rfl, rfl, .inl (by simp only; omega), short, width, rfl⟩⟩

/-- The bytes left of the slice wait in the buffer; with none left, those in it go on waiting. -/
theorem stash_ok (self : Sha256Streaming) {data : Bytes} (short : data.length < 64)
    (width : self.buffer.length = 64) (one : self.bufferLen = 0 ∨ data = []) :
    ∃ after, self.stash data = .ok after ∧ after.state = self.state
      ∧ after.totalLen = self.totalLen ∧ after.buffer.length = 64
      ∧ after.pending = self.pending ++ data ∧ after.bufferLen = self.bufferLen + data.length := by
  rw [stash]
  cases data with
  | nil => exact ⟨self, rfl, rfl, rfl, width, (append_nil _).symm, rfl⟩
  | cons first others => ?_
  have empty : self.bufferLen = 0 := one.resolve_right (cons_ne_nil _ _)
  rw [copyFromSlice_ok (Nat.zero_le _) (by omega) (by omega)]
  refine ⟨_, rfl, rfl, rfl, ?_, ?_, ?_⟩
  · simp only [take_zero, nil_append, length_append, length_drop]
    omega
  · simp only [pending, empty, take_zero, nil_append, take_left']
  · simp only [empty, Nat.zero_add]

/-- One update takes the hasher to the longer message, whatever the chunk's length. -/
theorem update_represents (data : Bytes) (before : self.Represents message) :
    ∃ after, self.update data = .ok after ∧ after.Represents (message ++ data) := by
  have short : self.bufferLen < 64 := by rw [before.occupied]; omega
  obtain ⟨⟨mid, left⟩, refilled, ahead, onward, one, mid_short, mid_width, mid_counted⟩ :=
    refill_ok { self with totalLen := self.totalLen + UInt64.ofNat data.length }
      data short before.width
  simp only at one mid_short mid_width
  -- The loop may pass over the waiting bytes: there are none, or there is nothing after them.
  have waiting : mid.pending.length = mid.bufferLen := by
    rw [pending, length_take_of_le (by omega)]
  have passed : absorb compress 64 mid.state left
        = absorb compress 64 h0 (message ++ data)
      ∧ mid.pending ++ rest 64 left = rest 64 (message ++ data) := by
    rw [absorb_append compress 64 h0 (by omega) message data,
      rest_append 64 (by omega) message data, ← before.state, ← before.pending]
    have beyond := pass_over compress 64 mid.state (by omega : mid.pending.length < 64)
      (one.imp_left fun empty => by rw [pending, empty, take_zero])
    exact ⟨beyond.1.trans ahead, beyond.2.trans onward⟩
  obtain ⟨state, waits⟩ := passed
  have left_short : (rest 64 left).length < 64 := by rw [rest_length]; omega
  have still : mid.bufferLen = 0 ∨ rest 64 left = [] :=
    one.imp_right fun spent => by rw [spent]; rfl
  obtain ⟨after, stashed, kept, counted, width, now, occupied⟩ :=
    stash_ok { mid with state := absorb compress 64 mid.state left } left_short
      mid_width still
  refine ⟨after, ?_, ?_⟩
  · rw [update, refilled, ok_bind]
    simp only
    rw [processBlocks_ok _ _ left (Nat.div_le_self _ _), ok_bind]
    exact stashed
  · have size := congrArg length waits
    rw [length_append, waiting, rest_length 64 (message ++ data)] at size
    exact {
      state := kept.trans state
      pending := now.trans waits
      occupied := occupied.trans size
      width
      counted := by
        rw [counted, length_append, UInt64.ofNat_add, ← before.counted]
        exact mid_counted }

/-- Any number of updates takes a fresh hasher to the concatenation of the chunks. -/
theorem updates_represent (chunks : List Bytes) (before : self.Represents message) :
    ∃ after, chunks.foldlM update self = .ok after
      ∧ after.Represents (message ++ chunks.flatten) := by
  induction chunks generalizing self message with
  | nil => exact ⟨self, rfl, by simpa using before⟩
  | cons chunk chunks ih =>
    obtain ⟨next, updated, represents⟩ := update_represents chunk before
    obtain ⟨after, finished, final⟩ := ih represents
    refine ⟨after, ?_, ?_⟩
    · rw [foldlM_cons, updated, ok_bind, finished]
    · rwa [flatten_cons, ← append_assoc]

end Sha256Streaming

/-- The bytes that make a message a whole number of blocks. -/
def padded (message : Bytes) : Bytes :=
  message ++ closing message.length (UInt64.ofNat message.length * 8)

/-- The digest of a message: what the padded message makes of the initial state. -/
def digestOf (message : Bytes) : Bytes :=
  wordBytes (Blocks.absorb compress 64 h0 (padded message)).toList

/-- The one-shot function returns the digest of every message it takes. -/
theorem sha256_ok (bound : message.length ≤ maxInputLen) :
    sha256 message = .ok (digestOf message) := by
  have short : message.length ≤ 440 := bound
  rw [sha256, if_pos bound]
  exact finish_ok h0 (show _ ≤ 512 by omega)

/-- The streaming hasher returns the digest of the message it stands at. -/
theorem Sha256Streaming.finalize_ok {self : Sha256Streaming}
    (represents : self.Represents message) : self.finalize = .ok (digestOf message) := by
  have occupied := represents.occupied
  have width := represents.width
  have waiting : (self.buffer.drop 0).take (self.bufferLen - 0) = rest 64 message :=
    represents.pending
  rw [finalize, slice_ok (Nat.zero_le _) (by omega), ok_bind, waiting, represents.counted,
    represents.state, finish_ok _ (by rw [rest_length]; omega), rest_length,
    closing_mod, ← absorb_append compress 64 h0 (by omega)]
  rfl

/-- However the message is cut into chunks, the hasher returns its digest. -/
theorem Sha256Streaming.digest_ok (chunks : List Bytes) :
    digest chunks = .ok (digestOf chunks.flatten) := by
  obtain ⟨hasher, updated, represents⟩ := updates_represent chunks new_represents
  rw [digest, updated, ok_bind]
  exact finalize_ok represents

/-! The digest by bytes is the standard's digest by bits. -/

/-- Blocks of sixty-four bytes are blocks of 512 bits. -/
theorem bitsOf_block {i : Nat} : bitsOf (block 64 bytes i) = block 512 (bitsOf bytes) i := by
  rw [block, block, ← bitsOf_take, ← bitsOf_drop, show 8 * (64 * i) = 512 * i by omega]

/-- The block machine over bytes is the standard's over bits. -/
theorem absorb_eq :
    absorb compress 64 state bytes
      = absorb Fips180.compress 512 state (bitsOf bytes) := by
  have count : (bitsOf bytes).length / 512 = bytes.length / 64 := by
    rw [bitsOf_length]
    omega
  rw [absorb, absorb, count]
  apply List.foldl_ext
  intro s i within
  rw [compress_eq (block_length 64 bytes i (List.mem_range.mp within)), bitsOf_block]

/-- The words of a digest spell the same bits as bytes and as words. -/
theorem bitsOf_wordBytes : bitsOf (wordBytes ws) = ws.flatMap Fips180.toBits := by
  induction ws with
  | nil => rfl
  | cons w ws ih =>
    rw [flatMap_cons, ← ih, ← bitsOf_beBytes (n := 4) w, ← bitsOf_append]
    rfl

/-- Byte by byte, the padding is the standard's. -/
theorem bitsOf_padded : bitsOf (padded message) = Fips180.pad (bitsOf message) := by
  have one : Fips180.toBits (0x80 : UInt8).toBitVec = true :: replicate 7 false := by decide
  have length : (UInt64.ofNat message.length * 8).toBitVec
      = BitVec.ofNat 64 (8 * message.length) := by
    rw [UInt64.toBitVec_mul, UInt64.toBitVec_ofNat', Nat.mul_comm, BitVec.ofNat_mul]
    rfl
  -- Seven zero bits belong to the closing byte, eight to each byte after it.
  have zeros : Fips180.zeros (8 * message.length)
      = 7 + 8 * ((message.length + 72) / 64 * 64 - 9 - message.length) := by
    rw [Fips180.zeros_eq]
    omega
  rw [padded, closing, Fips180.pad, bitsOf_length, zeros, bitsOf_append, bitsOf_append, bitsOf_cons,
    bitsOf_replicate_zero, bitsOf_beBytes, length, one, replicate_add]
  simp

/-- The bytes of the digest spell the standard's digest of the message's bits. -/
theorem digestOf_fips (short : message.length < 2 ^ 61) :
    Fips180.sha256 (bitsOf message) = some (bitsOf (digestOf message)) := by
  rw [Fips180.sha256, if_pos (by rw [bitsOf_length]; omega), digestOf, bitsOf_wordBytes, absorb_eq,
    bitsOf_padded, h0_eq]

/-- A computation returned, and its bytes are the standard's digest of a message. -/
def Digests (result : Except Panic Bytes) (message : Bytes) : Prop :=
  ∃ out, result = .ok out ∧ Fips180.sha256 (bitsOf message) = some (bitsOf out)

/-- Under every chunking of a message the streaming hasher returns the standard's digest, and the
one-shot function returns the same for every message it takes. -/
theorem sha256_correct :
    (∀ chunks : List Bytes, chunks.flatten.length < 2 ^ 61 →
      Digests (Sha256Streaming.digest chunks) chunks.flatten)
    ∧ ∀ message : Bytes, message.length ≤ maxInputLen →
      Digests (sha256 message) message
      ∧ ∀ chunks : List Bytes, chunks.flatten = message →
        Sha256Streaming.digest chunks = sha256 message := by
  constructor
  · intro chunks short
    exact ⟨_, Sha256Streaming.digest_ok chunks, digestOf_fips short⟩
  · intro message bound
    have small : message.length ≤ 440 := bound
    refine ⟨⟨_, sha256_ok bound, digestOf_fips (by omega)⟩, ?_⟩
    rintro chunks rfl
    rw [Sha256Streaming.digest_ok, sha256_ok bound]

/-- The string "abc" in three chunks, one of them empty. -/
theorem sha256_correct_abc :
    Digests (Sha256Streaming.digest [[0x61], [], [0x62, 0x63]]) [0x61, 0x62, 0x63]
    ∧ Sha256Streaming.digest [[0x61], [], [0x62, 0x63]] = sha256 [0x61, 0x62, 0x63] :=
  ⟨sha256_correct.1 [[0x61], [], [0x62, 0x63]] (by decide),
    (sha256_correct.2 [0x61, 0x62, 0x63] (by decide)).2 _ rfl⟩

set_option maxRecDepth 4000

-- The digest of "abc" that the standard's examples publish.
example : sha256 [0x61, 0x62, 0x63] = .ok [
    0xba, 0x78, 0x16, 0xbf, 0x8f, 0x01, 0xcf, 0xea, 0x41, 0x41, 0x40, 0xde, 0x5d, 0xae, 0x22, 0x23,
    0xb0, 0x03, 0x61, 0xa3, 0x96, 0x17, 0x7a, 0x9c, 0xb4, 0x10, 0xff, 0x61, 0xf2, 0x00, 0x15, 0xad]
    := by decide

end NovaOs.Sha256
