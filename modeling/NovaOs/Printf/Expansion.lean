import NovaOs.Printf.Model
import Mathlib.Data.Nat.Digits.Defs

/-! What a format stands for, and when the buffer gets as much of it as there is space for. -/

namespace NovaOs.Printf

open List

variable {value : UInt32} {format : Bytes} {base limit looks : Nat} {out : Out} {args : List Arg}
  {num length : Nat} {result : Option Out} {letter : UInt8} {after : Out}

/-- A number written out in a base. -/
def numeral (base n : Nat) : Bytes :=
  if n = 0 then ascii "0"
  else ((Nat.digits base n).map fun digit => digits.getD digit 0).reverse

/-- A number with its sign. -/
def decimal (n : Int) : Bytes :=
  if n < 0 then 45 :: numeral 10 n.natAbs else numeral 10 n.natAbs

/-- The scratch space suffices, so the digits are all there. -/
theorem utoaLoop_eq (two : 2 ≤ base) {space : Nat} (fits : num < base ^ space) :
    utoaLoop base space num = (Nat.digits base num).map fun digit => digits.getD digit 0 := by
  induction space generalizing num with
  | zero =>
    obtain rfl : num = 0 := by simpa using fits
    simp [utoaLoop]
  | succ space ih =>
    rw [utoaLoop]
    split
    · rename_i positive
      rw [Nat.digits_def' (by omega) positive, map_cons, ih]
      rw [pow_succ] at fits
      exact Nat.div_lt_of_lt_mul (by rwa [Nat.mul_comm] at fits)
    · obtain rfl : num = 0 := by omega
      simp

theorem utoa_eq (two : 2 ≤ base) (word : num < 2 ^ 32) : utoa num base = numeral base num := by
  have fits : num < base ^ 32 := Nat.lt_of_lt_of_le word (Nat.pow_le_pow_left two 32)
  rw [utoa, numeral, utoaLoop_eq two fits]

/-- A numeral is printed to its end: no digit is a terminator. -/
theorem numeral_whole (two : 2 ≤ base) (sixteen : base ≤ 16) (n : Nat) :
    (numeral base n).takeWhile (· != 0) = numeral base n := by
  have table : ∀ d < 16, (digits.getD d 0 != 0) = true := by decide
  rw [takeWhile_eq_self_iff, numeral]
  split
  · intro byte member
    obtain rfl := mem_singleton.mp member
    rfl
  · intro byte member
    obtain ⟨d, digit, rfl⟩ := mem_map.mp (mem_reverse.mp member)
    exact table d (Nat.lt_of_lt_of_le (Nat.digits_lt_base (by omega) digit) sixteen)

theorem decimal_whole {n : Int} : (decimal n).takeWhile (· != 0) = decimal n := by
  have whole : (numeral 10 n.natAbs).takeWhile (· != 0) = numeral 10 n.natAbs :=
    numeral_whole (by decide) (by decide) n.natAbs
  rw [decimal]
  split
  · rw [takeWhile_cons, if_pos (by decide), whole]
  · exact whole

theorem itoa_decimal : itoa value.toInt32.toInt 10 = decimal value.toInt32.toInt := by
  have low := value.toInt32.le_toInt
  have high := value.toInt32.toInt_lt
  generalize value.toInt32.toInt = num at low high
  rw [itoa, decimal]
  by_cases negative : num < 0
  · rw [if_pos ⟨rfl, negative⟩, if_pos negative]
    have magnitude : (-(num + 1)).toNat + 1 = num.natAbs := by omega
    simp only [magnitude]
    rw [utoa_eq (by decide) (by omega)]
  · rw [if_neg (by simp [negative]), if_neg negative]
    have same : (num % 2 ^ 32).toNat = num.natAbs := by omega
    rw [same, utoa_eq (by decide) (by omega)]

/-- In base sixteen the word is read without a sign. -/
theorem itoa_hex : itoa value.toInt32.toInt 16 = numeral 16 value.toNat := by
  have small := value.toNat_lt
  have signed : value.toInt32.toInt = value.toBitVec.toInt := rfl
  have same : value.toBitVec.toNat = value.toNat := rfl
  have word : (value.toInt32.toInt % 2 ^ 32).toNat = value.toNat := by
    rw [signed, BitVec.toInt_eq_toNat_cond, same]
    split <;> omega
  rw [itoa, if_neg (by simp), word, utoa_eq (by decide) small]

/-- The text an argument is printed as. -/
def argText : Directive → Arg → Option Bytes
  | .str, .str text => some (text.takeWhile (· != 0))
  | .dec, .word value => some (decimal value.toInt32.toInt)
  | .unsigned, .word value => some (numeral 10 value.toNat)
  | .hex, .word value => some (numeral 16 value.toNat)
  | .char, .word value => some [value.toUInt8]
  | _, _ => none

/-- A piece of a format: a text, a percent sign with a letter that means nothing, or a percent sign
with nothing behind it. -/
inductive Piece where
  | text (bytes : Bytes)
  | unknown (letter : UInt8)
  | percent

variable {pieces : List Piece}

def Piece.expansion : Piece → Bytes
  | text bytes => bytes
  | unknown letter => [37, letter]
  | percent => [37]

/-- The pieces of a format, if the arguments match it. -/
def expand : Bytes → List Arg → Option (List Piece)
  | [], _ => some []
  | c :: rest, args =>
    if c ≠ 37 then (expand rest args).map (.text [c] :: ·)
    else
      match rest with
      | [] => some [.percent]
      | letter :: rest =>
        if Directive.of letter = .other then (expand rest args).map (.unknown letter :: ·)
        else
          match args with
          | [] => none
          | arg :: args =>
            match argText (Directive.of letter) arg with
            | none => none
            | some text => (expand rest args).map (.text text :: ·)

/-- All that a format stands for. -/
def fullText (pieces : List Piece) : Bytes :=
  pieces.flatMap Piece.expansion

/-- A letter that means nothing does not come with just one place left, and a percent sign at the
very end does not come with any. -/
def Piece.Fits (limit pos : Nat) : Piece → Prop
  | text _ => True
  | unknown _ => pos + 1 ≠ limit
  | percent => limit ≤ pos

/-- Every piece fits where the text in front of it ends. -/
def Fits (limit : Nat) : (pos : Nat) → List Piece → Prop
  | _, [] => True
  | pos, piece :: rest =>
    piece.Fits limit pos ∧ Fits limit (pos + piece.expansion.length) rest

/-- Nothing is printed in a full buffer. -/
theorem Fits.full {pos : Nat} (full : limit ≤ pos) (pieces : List Piece) :
    Fits limit pos pieces := by
  induction pieces generalizing pos with
  | nil => trivial
  | cons piece rest ih =>
    refine ⟨?_, ih (by omega)⟩
    cases piece with
    | text => trivial
    | unknown => exact fun same => by omega
    | percent => exact full

theorem Fits.space {pos : Nat} (strays : ¬Fits limit pos pieces) : pos < limit := by
  by_contra full
  exact strays (Fits.full (Nat.not_lt.mp full) pieces)

namespace Out

variable {letter : UInt8} {more : Bytes}

/-- Writes a text, whatever there is space for. -/
def puts (out : Out) (text : Bytes) : Out :=
  text.foldl put out

@[simp] theorem puts_nil (out : Out) : out.puts [] = out := rfl

@[simp] theorem puts_cons {c : UInt8} {text : Bytes} :
    out.puts (c :: text) = (out.put c).puts text := rfl

theorem puts_append {text : Bytes} : out.puts (text ++ more) = (out.puts text).puts more :=
  foldl_append

@[simp] theorem puts_pos (out : Out) (text : Bytes) :
    (out.puts text).pos = out.pos + text.length := by
  induction text generalizing out with
  | nil => rfl
  | cons c rest ih =>
    rw [puts_cons, ih, put, length_cons]
    simp only
    omega

@[simp] theorem puts_seen (out : Out) (text : Bytes) : (out.puts text).seen = out.seen := by
  induction text generalizing out with
  | nil => rfl
  | cons c rest ih => exact ih (out.put c)

/-- Writing a text changes no other place. -/
theorem puts_other {text : Bytes} {i : Nat} (outside : i < out.pos ∨ out.pos + text.length ≤ i) :
    (out.puts text).buffer i = out.buffer i := by
  induction text generalizing out with
  | nil => rfl
  | cons c rest ih =>
    rw [length_cons] at outside
    rw [puts_cons, ih]
    · exact Function.update_of_ne (by omega) ..
    · simp only [put]
      omega

/-- A text is where it was written. -/
theorem puts_at (out : Out) (text : Bytes) {i : Nat} (inside : i < text.length) :
    (out.puts text).buffer (out.pos + i) = text[i] := by
  induction text generalizing out i with
  | nil => cases inside
  | cons c rest ih =>
    rw [puts_cons]
    cases i with
    | zero =>
      rw [puts_other (by simp only [put]; omega)]
      exact Function.update_self ..
    | succ i => ?_
    have place : out.pos + (i + 1) = (out.put c).pos + i := by
      simp only [put]
      omega
    rw [place, ih (out.put c) (by simpa using inside)]
    rfl

/-- A string is copied up to its end or as far as there is space. -/
theorem copy_eq {text : Bytes} :
    out.copy limit text = out.puts ((text.takeWhile (· != 0)).take (limit - out.pos)) := by
  induction text generalizing out with
  | nil => simp [copy]
  | cons c rest ih =>
    rw [copy]
    by_cases more : c ≠ 0 ∧ out.pos < limit
    · have size : limit - out.pos = limit - (out.pos + 1) + 1 := by omega
      rw [if_pos more, ih, takeWhile_cons, if_pos (by simpa using more.1), size, take_succ_cons]
      rfl
    rw [if_neg more]
    by_cases ended : c = 0
    · simp [ended]
    · have full : limit - out.pos = 0 :=
        Nat.sub_eq_zero_of_le (Nat.le_of_not_lt fun space => more ⟨ended, space⟩)
      simp [full]

theorem puts_take_append {text : Bytes} :
    out.puts ((text ++ more).take (limit - out.pos))
      = (out.puts (text.take (limit - out.pos))).puts
          (more.take (limit - (out.puts (text.take (limit - out.pos))).pos)) := by
  rw [take_append, puts_append, puts_pos, length_take]
  congr 2
  omega

/-- A letter that means something prints its argument, as far as there is space. -/
theorem directive_known {arg : Arg} {text : Bytes}
    (known : argText (Directive.of letter) arg = some text) (args : List Arg)
    (space : out.pos < limit) :
    out.directive limit letter (arg :: args)
      = some (args, out.puts (text.take (limit - out.pos))) := by
  cases kind : Directive.of letter <;> cases arg <;>
    simp only [kind, argText, Option.some.injEq, reduceCtorEq] at known <;> subst known <;>
    simp only [directive, kind]
  case str.str text => rw [copy_eq]
  case dec.word value => rw [copy_eq, itoa_decimal, decimal_whole]
  case unsigned.word value =>
    rw [copy_eq, utoa_eq (by decide) value.toNat_lt, numeral_whole (by decide) (by decide)]
  case hex.word value => rw [copy_eq, itoa_hex, numeral_whole (by decide) (by decide)]
  case char.word value =>
    have size : limit - out.pos = limit - out.pos - 1 + 1 := by omega
    rw [size, take_succ_cons, take_nil]
    rfl

/-- A letter that means nothing is printed with its percent sign, whatever the space. -/
theorem directive_unknown (unknown : Directive.of letter = .other) :
    out.directive limit letter args = some (args, out.puts [37, letter]) := by
  simp [directive, unknown]

end Out

/-- The output once a piece of a format has been printed. -/
def Out.advance (limit : Nat) (text : Bytes) (looks : Nat) (out : Out) : Out :=
  { out.puts (text.take (limit - out.pos)) with seen := out.seen + looks }

/-- What has been looked at has no influence on what is printed. -/
theorem Out.puts_set_seen (out : Out) (seen : Nat) (text : Bytes) :
    ({ out with seen := seen } : Out).puts text = { out.puts text with seen := seen } := by
  induction text generalizing out with
  | nil => rfl
  | cons c rest ih => exact ih (out.put c)

section

variable {limit : Nat} {args : List Arg} {out : Out} {letter : UInt8} {rest : Bytes}

/-- In a full buffer the loop ends with the character it looks at. -/
theorem loop_full (format tail : Bytes) (full : limit ≤ out.pos) :
    loop limit (format ++ 0 :: tail) args out = some out.look := by
  rw [loop.eq_def]
  cases format <;> exact if_pos (.inr (Nat.not_lt.mpr full))

/-- The loop ends with the format. -/
theorem loop_end : loop limit (0 :: rest) args out = some out.look := by
  rw [loop.eq_def]
  exact if_pos (.inl rfl)

variable (space : out.pos < limit)
include space

/-- A plain character is printed. -/
theorem loop_plain {c : UInt8} (nonzero : c ≠ 0) (plain : c ≠ 37) (rest : Bytes) :
    loop limit (c :: rest) args out = loop limit rest args (out.advance limit [c] 1) := by
  have size : limit - out.pos = limit - out.pos - 1 + 1 := by omega
  rw [loop.eq_def]
  simp only
  rw [if_neg (by simp [nonzero, Out.look, space]), if_pos plain, Out.advance, size,
    take_succ_cons, take_nil]
  rfl

/-- A percent sign is followed by its letter. -/
theorem loop_percent (letter : UInt8) :
    loop limit (37 :: letter :: rest) args out
      = (out.look.look.directive limit letter args).bind fun result =>
          loop limit rest result.1 result.2 := by
  rw [loop.eq_def]
  simp only
  rw [if_neg (by simp [Out.look, space]), if_neg (by simp)]
  cases out.look.look.directive limit letter args <;> rfl

theorem loop_known {arg : Arg} {text : Bytes}
    (known : argText (Directive.of letter) arg = some text) (rest : Bytes) :
    loop limit (37 :: letter :: rest) (arg :: args) out
      = loop limit rest args (out.advance limit text 2) := by
  rw [loop_percent space, Out.directive_known known args (by exact space), Option.bind_some]
  simp only [Out.look]
  rw [Out.puts_set_seen]
  rfl

/-- A percent sign and a letter that means nothing take two places, also where there is but one. -/
theorem loop_unknown (unknown : Directive.of letter = .other) (rest : Bytes) :
    loop limit (37 :: letter :: rest) args out
      = loop limit rest args { out.puts [37, letter] with seen := out.seen + 2 } := by
  rw [loop_percent space, Out.directive_unknown unknown, Option.bind_some]
  rfl

end

/-- A text is printed as far as there is space, and no more of the format was looked at than so many
characters and the one behind them. -/
def Printed (limit : Nat) (text : Bytes) (length : Nat) (out : Out) (result : Option Out) : Prop :=
  ∃ seen ≤ out.seen + length + 1,
    result = some { out.puts (text.take (limit - out.pos)) with seen := seen }

theorem Printed.full {text : Bytes} (full : limit ≤ out.pos) (format tail : Bytes)
    (args : List Arg) :
    Printed limit text format.length out (loop limit (format ++ 0 :: tail) args out) := by
  refine ⟨out.seen + 1, by omega, ?_⟩
  rw [loop_full format tail full, Nat.sub_eq_zero_of_le full, take_zero]
  rfl

theorem Printed.append {text more : Bytes}
    (rest : Printed limit more length (out.advance limit text looks) result) :
    Printed limit (text ++ more) (looks + length) out result := by
  obtain ⟨seen, bound, printed⟩ := rest
  refine ⟨seen, by simp only [Out.advance] at bound; omega, ?_⟩
  rw [printed, Out.puts_take_append, Out.advance, Out.puts_set_seen]

/-- What fits behind a text fits behind the part of it that was printed. -/
theorem Fits.advance_iff {text : Bytes} :
    Fits limit (out.advance limit text looks).pos pieces ↔
      Fits limit (out.pos + text.length) pieces := by
  simp only [Out.advance, Out.puts_pos, length_take]
  by_cases whole : text.length ≤ limit - out.pos
  · rw [Nat.min_eq_right whole]
  · exact iff_of_true (Fits.full (by omega) pieces) (Fits.full (by omega) pieces)

/-- With space for both characters, a letter that means nothing is a text like others. -/
theorem puts_unknown (space : out.pos < limit) (fits : (Piece.unknown letter).Fits limit out.pos) :
    ({ out.puts [37, letter] with seen := out.seen + 2 } : Out)
      = out.advance limit [37, letter] 2 := by
  have two : limit - out.pos = limit - out.pos - 2 + 2 := by
    simp only [Piece.Fits] at fits
    omega
  rw [Out.advance, two, take_succ_cons, take_succ_cons, take_nil]

theorem Out.copy_seen {text : Bytes} : (out.copy limit text).seen = out.seen := by
  rw [Out.copy_eq, Out.puts_seen]

theorem Out.directive_seen {left : List Arg}
    (done : out.directive limit letter args = some (left, after)) : after.seen = out.seen := by
  unfold Out.directive at done
  split at done <;> cases done
  all_goals first | rfl | exact Out.copy_seen ..

/-- The loop looks at one character at least. -/
theorem loop_seen {memory : Bytes} (finished : loop limit memory args out = some after) :
    out.seen < after.seen := by
  fun_induction loop limit memory args out with
  | case1 | case4 | case5 => cases finished
  | case2 c rest args out looked stop =>
    rw [← Option.some.inj finished]
    exact Nat.lt_succ_self _
  | case3 c rest args out looked more plain ih => exact Nat.lt_of_succ_lt (ih finished)
  | case6 c args out looked more percent letter rest left printed done ih =>
    have same := Out.directive_seen done
    have later := ih finished
    rw [same] at later
    exact Nat.lt_of_succ_lt (Nat.lt_of_succ_lt later)

/-- What the loop makes of a format of so many characters: if it fits, it is printed as far as there
is space, without a look behind its end; if not, it is printed past the last place or looked at
behind its end. -/
structure Accounted (limit : Nat) (pieces : List Piece) (length : Nat) (out : Out)
    (result : Option Out) : Prop where
  printed : Fits limit out.pos pieces → Printed limit (fullText pieces) length out result
  strays : ¬Fits limit out.pos pieces → ∀ after, result = some after →
    limit < after.pos ∨ out.seen + length + 1 < after.seen

theorem Accounted.full (full : limit ≤ out.pos) (pieces : List Piece) (format tail : Bytes)
    (args : List Arg) :
    Accounted limit pieces format.length out (loop limit (format ++ 0 :: tail) args out) where
  printed _ := .full full format tail args
  strays strays := absurd (Fits.full full pieces) strays

/-- A piece that fits is printed in front of the others. -/
theorem Accounted.cons (piece : Piece) (fits : piece.Fits limit out.pos)
    (rest : Accounted limit pieces length (out.advance limit piece.expansion looks) result) :
    Accounted limit (piece :: pieces) (looks + length) out result where
  printed all := (rest.printed (Fits.advance_iff.mpr all.2)).append
  strays strays after finished := by
    have later : ¬Fits limit (out.advance limit piece.expansion looks).pos pieces :=
      fun more => strays ⟨fits, Fits.advance_iff.mp more⟩
    have strayed := rest.strays later after finished
    simp only [Out.advance] at strayed
    omega

/-- The loop prints every piece, or strays exactly where one does not fit. -/
theorem loop_accounted (limit : Nat) (terminated : ∀ c ∈ format, c ≠ 0)
    (expanded : expand format args = some pieces) (tail : Bytes) (out : Out) :
    Accounted limit pieces format.length out (loop limit (format ++ 0 :: tail) args out) := by
  -- The induction follows the format, a plain character or a percent sign with its letter at a
  -- time.
  fun_induction expand format args generalizing out pieces with
  | case1 args =>
    cases expanded
    refine ⟨fun _ => ⟨out.seen + 1, Nat.le_refl _, ?_⟩, absurd trivial⟩
    rw [nil_append, loop_end]
    simp [fullText, Out.look]
  | case2 c rest args plain ih =>
    obtain ⟨pieces, found, rfl⟩ := Option.map_eq_some_iff.mp expanded
    by_cases space : out.pos < limit
    · rw [cons_append, loop_plain space (terminated c (by simp)) plain, length_cons, Nat.add_comm]
      exact .cons (.text [c]) trivial (ih (fun c member => terminated c (by simp [member])) found _)
    · exact .full (Nat.not_lt.mp space) _ (c :: rest) tail args
  | case3 c args percent =>
    cases expanded
    obtain rfl := not_not.mp percent
    refine ⟨fun fits => .full fits.1 [37] tail args, fun strays after finished => ?_⟩
    -- The terminator is taken for a letter, and the loop goes on behind it.
    rw [singleton_append, loop_unknown (Fits.space strays) rfl] at finished
    exact .inr (loop_seen finished)
  | case4 c args percent letter rest unknown ih =>
    obtain ⟨pieces, found, rfl⟩ := Option.map_eq_some_iff.mp expanded
    obtain rfl := not_not.mp percent
    by_cases space : out.pos < limit
    · rw [cons_append, cons_append, loop_unknown space unknown]
      by_cases one : out.pos + 1 = limit
      · -- The letter goes to the last place, and the terminator behind it.
        refine ⟨fun fits => absurd one fits.1, fun _ after finished => ?_⟩
        have pos := Out.puts_pos out [37, letter]
        rw [length_cons, length_singleton] at pos
        rw [loop_full _ _ (by simp only [pos]; omega)] at finished
        cases finished
        simp only [Out.look, pos]
        omega
      · rw [puts_unknown space one, length_cons, length_cons,
          show rest.length + 1 + 1 = 2 + rest.length by omega]
        exact .cons (.unknown letter) one
          (ih (fun c member => terminated c (by simp [member])) found _)
    · exact .full (Nat.not_lt.mp space) _ (37 :: letter :: rest) tail args
  | case5 | case6 => cases expanded
  | case7 c percent letter rest known arg args text printed ih =>
    obtain ⟨pieces, found, rfl⟩ := Option.map_eq_some_iff.mp expanded
    obtain rfl := not_not.mp percent
    by_cases space : out.pos < limit
    · rw [cons_append, cons_append, loop_known space printed, length_cons,
        length_cons, show rest.length + 1 + 1 = 2 + rest.length by omega]
      exact .cons (.text text) trivial
        (ih (fun c member => terminated c (by simp [member])) found _)
    · exact .full (Nat.not_lt.mp space) _ (37 :: letter :: rest) tail (arg :: args)

/-- All that is asked of a call: it returns, has looked at no more of the format than its end, has
written to the first `size` places only, a terminator among them, and the text in front of that is
what the format stands for, cut to what there is space for. -/
structure Confined (buffer : Nat → UInt8) (size : UInt32) (format : Bytes) (text : Bytes)
    (out : Out) : Prop where
  looked : out.seen ≤ format.length + 1
  inside : out.pos < size.toNat
  untouched : ∀ i, out.pos < i → out.buffer i = buffer i
  terminated : out.buffer out.pos = 0
  printed : (List.range out.pos).map out.buffer = text.take (size.toNat - 1)

/-- As much of a text as there is space for, and the terminator behind it. -/
theorem confined_puts (buffer : Nat → UInt8) {size : UInt32} (some_ : 1 ≤ size.toNat)
    (text : Bytes) {seen : Nat} (looked : seen ≤ format.length + 1) :
    let out := ({ buffer := buffer } : Out).puts (text.take (size.toNat - 1 - 0))
    Confined buffer size format text
      { out with buffer := Function.update out.buffer out.pos 0, seen := seen } := by
  have pos := Out.puts_pos { buffer := buffer } (text.take (size.toNat - 1 - 0))
  have length : (text.take (size.toNat - 1)).length ≤ size.toNat - 1 := length_take_le ..
  simp only [Nat.sub_zero, Nat.zero_add] at pos ⊢
  constructor
  · exact looked
  · simp only [pos]
    omega
  · intro i behind
    simp only [pos] at behind ⊢
    rw [Function.update_of_ne (by omega), Out.puts_other (by simp only; omega)]
  · exact Function.update_self ..
  · simp only [pos]
    apply ext_getElem
    · simp
    · intro i inLeft inRight
      simp only [length_map, length_range] at inLeft
      rw [getElem_map, getElem_range, Function.update_of_ne (by omega)]
      have place := Out.puts_at { buffer := buffer } (text.take (size.toNat - 1)) inRight
      rwa [Nat.zero_add] at place

/-- Whatever follows the format in memory, a call keeps to its buffer and its format exactly if no
letter that means nothing comes with one place left and no percent sign at the end with any. -/
theorem vsnprintf_confined (buffer : Nat → UInt8) (size : UInt32) (format : Bytes)
    (args : List Arg) (pieces : List Piece) (tail : Bytes) (some_ : 1 ≤ size.toNat)
    (terminated : 0 ∉ format) (matching : expand format args = some pieces) :
    (∃ out, vsnprintf buffer size (format ++ 0 :: tail) args = some out ∧
      Confined buffer size format (fullText pieces) out) ↔ Fits (size.toNat - 1) 0 pieces := by
  have limit : (size - 1).toNat = size.toNat - 1 :=
    UInt32.toNat_sub_of_le size 1 (UInt32.le_iff_toNat_le.mpr some_)
  have nonzero : ∀ c ∈ format, c ≠ 0 := fun c member zero => terminated (zero ▸ member)
  have accounted := loop_accounted (size.toNat - 1) nonzero matching tail { buffer := buffer }
  unfold vsnprintf
  rw [limit]
  constructor
  · -- A call that strays writes or reads too far, against `inside` or `looked`.
    rintro ⟨out, returned, confined⟩
    by_contra strays
    split at returned
    · cases returned
    rename_i ended finished
    cases returned
    have strayed := accounted.strays strays _ finished
    have inside := confined.inside
    have looked := confined.looked
    simp only at inside looked strayed
    omega
  · intro fits
    obtain ⟨seen, bound, printed⟩ := accounted.printed fits
    rw [printed]
    exact ⟨_, rfl, confined_puts buffer some_ (fullText pieces) (by simpa using bound)⟩

theorem vsnprintf_confined_count :
    ∃ out, vsnprintf (fun _ => 255) 5 (ascii "n=%d%z" ++ [0]) [.word 42] = some out ∧
      Confined (fun _ => 255) 5 (ascii "n=%d%z") (ascii "n=42%z") out :=
  (vsnprintf_confined (fun _ => 255) 5 (ascii "n=%d%z") [.word 42]
    [.text [110], .text [61], .text [52, 50], .unknown 122] [] (by decide) (by decide)
    (by rfl)).mpr (by simp [Fits, Piece.Fits, Piece.expansion])

/-- With one place left, a letter that means nothing pushes the terminator out of the buffer; and a
percent sign at the end makes the loop print what lies behind the format. -/
theorem percent_sign_strays :
    ((vsnprintf (fun _ => 255) 2 (ascii "%z" ++ [0]) []).map
        fun out => (out.pos, out.buffer 1, out.buffer 2)) = some (2, 122, 0) ∧
      ((vsnprintf (fun _ => 255) 16 (ascii "50%" ++ 0 :: ascii "key" ++ [0]) []).map
        fun out => (out.seen, (List.range out.pos).map out.buffer))
          = some (8, ascii "50%" ++ 0 :: ascii "key") := by
  decide

end NovaOs.Printf
