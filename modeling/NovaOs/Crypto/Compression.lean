import NovaOs.Crypto.Sha256

/-! The block function is the standard's: constants, message schedule, rounds. -/

namespace NovaOs.Sha256

variable {t : Nat} {block : Bytes}

open Slice List

/-- The rotation of the machine is the two shifts of the standard. -/
theorem rotr_eq (x : Word) {n : Nat} (small : n < 32) : rotr x n = Fips180.rotr n x := by
  rw [rotr, Fips180.rotr, BitVec.rotateRight_def, Nat.mod_eq_of_lt small]

theorem h0_eq : h0 = Fips180.initial := by decide

/-- The table holds the fractional parts of the cube roots of the first sixty-four primes. -/
theorem k_eq : k = (range 64).map Fips180.constant := by decide +kernel

theorem k_getD (within : t < 64) : k.getD t 0 = Fips180.constant t := by
  simp [k_eq, getD_eq_getElem?_getD, getElem?_range within]

/-- Four bytes of a block make the word their bits spell. -/
theorem fromBeBytes_eq (block : Bytes) {off : Nat} (fits : off + 4 ≤ block.length) :
    fromBeBytes block off = Fips180.ofBits (bitsOf ((block.drop off).take 4)) := by
  have bytes : (block.drop off).take 4 = [block.getD off 0, block.getD (off + 1) 0,
      block.getD (off + 2) 0, block.getD (off + 3) 0] := by
    apply ext_getElem?
    intro i
    simp only [getElem?_take, getElem?_drop, getD_eq_getElem?_getD]
    -- All four positions lie inside the block, so no default is read.
    match i with
    | 0 | 1 | 2 | 3 => simp [show off < block.length by omega,
        show off + 1 < block.length by omega, show off + 2 < block.length by omega,
        show off + 3 < block.length by omega]
    | i + 4 => simp [show ¬ i + 4 < 4 by omega]
  rw [bytes, bitsOf_cons, bitsOf_cons, bitsOf_cons, bitsOf_cons, bitsOf_nil, append_nil,
    ← append_assoc, ← append_assoc, ← Fips180.toBits_append, ← Fips180.toBits_append,
    ← Fips180.toBits_append]
  exact (Fips180.ofBits_toBits).symm

/-- The array of words after one store: the new word in its place, the others as they were. -/
theorem getD_set {w : List Word} {i : Nat} {value : Word} (within : i < w.length) :
    (w.set i value).getD t 0 = if t = i then value else w.getD t 0 := by
  simp only [getD_eq_getElem?_getD, getElem?_set]
  by_cases same : t = i
  · simp [same, within]
  · simp [same, Ne.symm same]

/-- The words loaded so far are the block's, and the array keeps its length. -/
theorem loadWords_spec (block : Bytes) (n : Nat) (bound : n ≤ 16) :
    let w := (range n).foldl (fun w t => w.set t (fromBeBytes block (t * 4)))
      (replicate 64 0)
    w.length = 64 ∧ ∀ t < n, w.getD t 0 = fromBeBytes block (t * 4) := by
  induction n with
  | zero => exact ⟨length_replicate, by omega⟩
  | succ n ih =>
    obtain ⟨size, loaded⟩ := ih (by omega)
    simp only [range_succ, foldl_append, foldl_cons, foldl_nil]
    refine ⟨by rw [length_set, size], fun t within => ?_⟩
    rw [getD_set (by omega)]
    split
    · rename_i last
      rw [last]
    · exact loaded t (by omega)

theorem loadWords_length (block : Bytes) : (loadWords block).length = 64 :=
  (loadWords_spec block 16 (Nat.le_refl 16)).1

/-- Every word of the block is the standard's input word. -/
theorem loadWords_getD (full : block.length = 64) (within : t < 16) :
    (loadWords block).getD t 0 = Fips180.schedule (bitsOf block) t := by
  -- Word `t` takes bits `32 * t` to `32 * t + 31`, which are four whole bytes.
  have bits : ((bitsOf block).drop (32 * t)).take 32 = bitsOf ((block.drop (t * 4)).take 4) := by
    rw [← bitsOf_take, ← bitsOf_drop, show 8 * (t * 4) = 32 * t by omega]
  rw [Fips180.schedule, if_pos within, Fips180.inputWord, bits, ← fromBeBytes_eq block (by omega)]
  exact (loadWords_spec block 16 (by omega)).2 t within

/-- After `n` turns of the second loop the first `16 + n` words are the message schedule. -/
theorem extendWords_spec (full : block.length = 64) (n : Nat) (bound : n ≤ 48) :
    let w := (range' 16 n).foldl extendWord (loadWords block)
    w.length = 64 ∧ ∀ t < 16 + n, w.getD t 0 = Fips180.schedule (bitsOf block) t := by
  induction n with
  | zero =>
    simp only [range'_zero, foldl_nil]
    exact ⟨loadWords_length block, fun t within => loadWords_getD full within⟩
  | succ n ih =>
    obtain ⟨size, known⟩ := ih (by omega)
    rw [range'_concat, foldl_append, Nat.one_mul]
    generalize (range' 16 n).foldl extendWord (loadWords block) = w at size known
    simp only [foldl_cons, foldl_nil, extendWord]
    refine ⟨by rw [length_set, size], fun t within => ?_⟩
    rw [getD_set (by omega)]
    split
    · -- The new word reads four earlier ones, all of them known.
      rename_i last
      subst last
      rw [Fips180.schedule, if_neg (by omega), known _ (by omega), known _ (by omega),
        known _ (by omega), known _ (by omega), Fips180.smallSigma0, Fips180.smallSigma1,
        rotr_eq _ (by omega), rotr_eq _ (by omega), rotr_eq _ (by omega), rotr_eq _ (by omega)]
      ac_rfl
    · exact known t (by omega)

theorem words_getD (full : block.length = 64) (within : t < 64) :
    (words block).getD t 0 = Fips180.schedule (bitsOf block) t :=
  (extendWords_spec full 48 (by omega)).2 t within

/-- A turn of the loop is a round of the standard. -/
theorem mix_eq (full : block.length = 64) (v : State) (within : t < 64) :
    mix (words block) v t
      = Fips180.round (Fips180.constant t) (Fips180.schedule (bitsOf block) t) v := by
  simp only [mix, Fips180.round, k_getD within, words_getD full within, Fips180.bigSigma0,
    Fips180.bigSigma1, Fips180.ch, Fips180.maj]
  rw [rotr_eq v.e (show 6 < 32 by omega), rotr_eq v.e (show 11 < 32 by omega),
    rotr_eq v.e (show 25 < 32 by omega), rotr_eq v.a (show 2 < 32 by omega),
    rotr_eq v.a (show 13 < 32 by omega), rotr_eq v.a (show 22 < 32 by omega)]

/-- The block function is the standard's, on the bits of the block. -/
theorem compress_eq (full : block.length = 64) {state : State} :
    compress state block = Fips180.compress state (bitsOf block) := by
  have rounds : (range 64).foldl (mix (words block)) state
      = (range 64).foldl (fun v t =>
          Fips180.round (Fips180.constant t) (Fips180.schedule (bitsOf block) t) v) state := by
    apply foldl_ext
    intro v t within
    exact mix_eq full v (mem_range.mp within)
  simp only [compress, Fips180.compress, Fips180.Registers.add, rounds]

end NovaOs.Sha256
