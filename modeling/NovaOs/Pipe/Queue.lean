import NovaOs.Pipe.Model

/-! Pipes are queues of bytes: what was written comes out in order, and the ends close for good. -/

namespace NovaOs.Pipes

open List

variable {pipes : PipeTable} {i : Fin maxPipes}

/-- The cell so many places behind another. -/
def place (pos : Fin pipeCapacity) (i : Nat) : Fin pipeCapacity :=
  ⟨(pos.val + i) % pipeCapacity, Nat.mod_lt _ pipeCapacity_pos⟩

theorem place_zero (pos : Fin pipeCapacity) : place pos 0 = pos :=
  Fin.ext (Nat.mod_eq_of_lt pos.isLt)

theorem place_next (pos : Fin pipeCapacity) {i : Nat} : place (next pos) i = place pos (i + 1) := by
  apply Fin.ext
  simp only [place, next]
  rw [Nat.mod_add_mod, Nat.add_assoc, Nat.add_comm 1 i]

namespace Pipe

variable {p : Pipe}

/-- A pipe in order: the place for the next byte is as far behind the next one to read as there are
bytes in between, and it is in use while one of its ends is open. -/
structure Sound (p : Pipe) : Prop where
  fits : p.count ≤ pipeCapacity
  behind : p.writePos = place p.readPos p.count
  ends : p.inUse = (p.readerOpen || p.writerOpen)

/-- The buffer of a pipe as a ring. -/
def ring (p : Pipe) (fits : p.count ≤ pipeCapacity) : Ring UInt8 pipeCapacity where
  cells := p.buf
  head := p.readPos.val
  len := p.count
  head_lt := p.readPos.isLt
  len_le := fits

/-- The bytes in a pipe, the oldest first. -/
def contents (p : Pipe) : Bytes :=
  (List.range p.count).map fun i => p.buf (place p.readPos i)

@[simp] theorem contents_length (p : Pipe) : p.contents.length = p.count := by
  simp [contents]

/-- The loop of a read copies bytes from the front and moves the place to read from. -/
theorem copyOut_eq {n : Nat} :
    p.copyOut n = ((List.range n).map fun i => p.buf (place p.readPos i),
      { p with readPos := place p.readPos n }) := by
  induction n generalizing p with
  | zero => simp [copyOut, place_zero]
  | succ n ih =>
    simp only [copyOut, ih, place_next, range_succ_eq_map, map_cons, map_map,
      place_zero]
    rfl

/-- The loop of a write stores bytes one behind the other. -/
theorem copyIn_eq (data : Bytes) (p : Pipe) {from_ : Nat}
    (here : p.writePos.val = from_ % pipeCapacity) :
    p.copyIn data = { p with
      buf := Ring.store p.buf pipeCapacity_pos from_ data
      writePos := place p.writePos data.length } := by
  induction data generalizing p from_ with
  | nil => simp [copyIn, Ring.store, place_zero]
  | cons byte rest ih =>
    have cell : p.writePos = ⟨from_ % pipeCapacity, Nat.mod_lt _ pipeCapacity_pos⟩ := Fin.ext here
    have onward : (next p.writePos).val = (from_ + 1) % pipeCapacity := by
      simp only [next]
      rw [here, Nat.mod_add_mod]
    rw [copyIn, ih _ onward]
    simp only [Ring.store, place_next, length_cons, cell]

theorem contents_ring (fits : p.count ≤ pipeCapacity) : (p.ring fits).contents = p.contents := rfl

/-- A read hands out bytes from the front and leaves the ends as they were. -/
theorem read_spec (sound : p.Sound) (maxLen : UInt32) :
    (p.read maxLen).2.1 = p.contents.take maxLen.toNat ∧
      (p.read maxLen).2.2.contents = p.contents.drop maxLen.toNat ∧ (p.read maxLen).2.2.Sound := by
  have fits := sound.fits
  by_cases none : p.count = 0
  · have empty : p.contents = [] := length_eq_zero_iff.mp (by simpa using none)
    simp [read, none, empty, sound]
  -- The ring the pipe is drops as many bytes as the loop has copied.
  have dropped := Ring.contents_consume (p.ring fits) maxLen.toNat
  have peeked := Ring.peek_eq (p.ring fits) 0 maxLen.toNat
  rw [contents_ring] at dropped peeked
  simp only [read, none, if_false, copyOut_eq]
  refine ⟨?_, dropped, ?_⟩
  · rw [← drop_zero (l := p.contents), ← peeked]
    simp [Ring.peek, Ring.cell, ring, place, Nat.min_comm]
  constructor
  · exact Nat.le_trans (Nat.sub_le _ _) fits
  · have copied : min maxLen.toNat p.count + (p.count - min maxLen.toNat p.count) = p.count := by
      omega
    simp only [sound.behind]
    apply Fin.ext
    simp only [place]
    rw [Nat.mod_add_mod, Nat.add_assoc, copied]
  · exact sound.ends

/-- How many bytes a write takes in. -/
def room (p : Pipe) (data : Bytes) : Nat :=
  min (pipeCapacity - p.count) data.length

theorem write_eq (sound : p.Sound) (reader : p.readerOpen) {data : Bytes} :
    p.write data = ((p.room data : Int), { p with
      buf := Ring.store p.buf pipeCapacity_pos (p.readPos.val + p.count) (data.take (p.room data))
      writePos := place p.writePos (p.room data)
      count := p.count + p.room data }) := by
  have here : p.writePos.val = (p.readPos.val + p.count) % pipeCapacity := by
    rw [sound.behind]
    rfl
  have taken : (data.take (p.room data)).length = p.room data := by
    rw [length_take, room]
    omega
  have size : min data.length (pipeCapacity - p.count) = p.room data := Nat.min_comm ..
  simp only [write, size]
  rw [if_neg (by simp [reader]), copyIn_eq _ _ here, taken]

/-- A write appends as many of the bytes as it answers. -/
theorem write_spec (sound : p.Sound) (data : Bytes) :
    (p.write data).2.contents = p.contents ++ data.take (p.write data).1.toNat ∧
      (p.write data).2.Sound := by
  have fits := sound.fits
  by_cases reader : p.readerOpen
  · -- The ring the pipe is takes in what there is space for.
    have appended := Ring.contents_write (p.ring fits) data
    have taken : data.take (p.room data) = data.take (pipeCapacity - p.count) := by
      rw [take_eq_take_iff, room]
      omega
    rw [write_eq sound reader]
    refine ⟨?_, ?_, ?_, sound.ends⟩
    · exact appended.trans (by rw [Int.toNat_natCast, taken]; rfl)
    · show p.count + p.room data ≤ pipeCapacity
      rw [room]
      omega
    · simp only [sound.behind]
      apply Fin.ext
      simp only [place]
      rw [Nat.mod_add_mod, Nat.add_assoc]
  · simp [write, reader, sound]

/-- Closing an end touches nothing but who has the pipe. -/
theorem close_eq {isReadEnd : Bool} :
    p.close isReadEnd = { p with
      readerOpen := p.readerOpen && !isReadEnd
      writerOpen := p.writerOpen && isReadEnd
      inUse := p.inUse && (p.readerOpen && !isReadEnd || p.writerOpen && isReadEnd) } := by
  obtain ⟨buf, readPos, writePos, count, inUse, readerOpen, writerOpen⟩ := p
  cases isReadEnd <;> cases inUse <;> cases readerOpen <;> cases writerOpen <;> rfl

/-- Closing an end leaves the bytes where they are. -/
theorem close_spec (sound : p.Sound) (isReadEnd : Bool) :
    (p.close isReadEnd).contents = p.contents ∧ (p.close isReadEnd).Sound := by
  rw [close_eq]
  refine ⟨rfl, sound.fits, sound.behind, ?_⟩
  simp only [sound.ends]
  cases p.readerOpen <;> cases p.writerOpen <;> cases isReadEnd <;> rfl

/-- A new pipe is empty, with both ends open. -/
theorem created_sound (p : Pipe) :
    ({ p with
      inUse := true, readPos := start, writePos := start, count := 0
      readerOpen := true, writerOpen := true } : Pipe).Sound where
  fits := Nat.zero_le _
  behind := (place_zero start).symm
  ends := rfl

end Pipe

theorem slotOf_val (used : (pipes i).inUse = true) : slotOf pipes i.val = some i := by
  simp [slotOf, used]

namespace Watched

variable {w after : Watched} {i : Fin maxPipes} {births : Nat}

/-- What each call can do to the pipes. -/
inductive Change (w : Watched) : Call → Watched → Prop where
  | idle (call : Call) : Change w call w
  | created {i : Fin maxPipes} (free : (w.pipes i).inUse = false) :
      Change w .create
        { pipes := Function.update w.pipes i
            { w.pipes i with
              inUse := true, readPos := start, writePos := start, count := 0
              readerOpen := true, writerOpen := true }
          accepted := Function.update w.accepted i []
          returned := Function.update w.returned i []
          births := Function.update w.births i (w.births i + 1) }
  | received {id : Int} {i : Fin maxPipes} (found : slotOf w.pipes id = some i) (buffer : Bool)
      (maxLen : UInt32) :
      Change w (.read id buffer maxLen) { w with
        pipes := Function.update w.pipes i ((w.pipes i).read maxLen).2.2
        returned := Function.update w.returned i
          (w.returned i ++ ((w.pipes i).read maxLen).2.1) }
  | written {id : Int} {i : Fin maxPipes} (found : slotOf w.pipes id = some i) (data : Bytes) :
      Change w (.write id (some data)) { w with
        pipes := Function.update w.pipes i ((w.pipes i).write data).2
        accepted := Function.update w.accepted i
          (w.accepted i ++ data.take ((w.pipes i).write data).1.toNat) }
  | closed {id : Int} {i : Fin maxPipes} (found : slotOf w.pipes id = some i) (isReadEnd : Bool) :
      Change w (.close id isReadEnd) { w with
        pipes := Function.update w.pipes i ((w.pipes i).close isReadEnd) }

theorem change_step (w : Watched) (call : Call) : w.Change call (w.step call) := by
  cases call with
  | create =>
    simp only [step, rustPipeCreate]
    cases found : Table.first? (fun p : Pipe => !p.inUse) w.pipes with
    | none => exact .idle _
    | some i => exact .created (by simpa using Table.first?_eq_some found)
  | read id buffer maxLen =>
    simp only [step, rustPipeRead]
    cases found : slotOf w.pipes id with
    | none => exact .idle _
    | some i =>
      cases buffer with
      | false => simpa using Change.idle _
      | true => exact .received found true maxLen
  | write id data =>
    simp only [step, rustPipeWrite]
    cases found : slotOf w.pipes id with
    | none => exact .idle _
    | some i =>
      cases data with
      | none => exact .idle _
      | some data => exact .written found data
  | close id isReadEnd =>
    simp only [step, rustPipeClose]
    cases found : slotOf w.pipes id with
    | none => exact .idle _
    | some i => exact .closed found isReadEnd

/-- Every pipe is in order, and what it has taken in and not handed out is what is in it. -/
structure Balanced (w : Watched) : Prop where
  sound : ∀ i, (w.pipes i).Sound
  books : ∀ i, w.accepted i = w.returned i ++ (w.pipes i).contents

theorem Balanced.boot : ({} : Watched).Balanced where
  sound _ := ⟨Nat.zero_le _, (place_zero start).symm, rfl⟩
  books _ := rfl

/-- A change to one slot is judged there. -/
theorem Balanced.at_slot (balanced : w.Balanced) (sound : (after.pipes i).Sound)
    (books : after.accepted i = after.returned i ++ (after.pipes i).contents)
    (others : ∀ j, j ≠ i → after.pipes j = w.pipes j ∧ after.accepted j = w.accepted j ∧
      after.returned j = w.returned j) : after.Balanced where
  sound j := by
    by_cases same : j = i
    · exact same ▸ sound
    · rw [(others j same).1]
      exact balanced.sound j
  books j := by
    by_cases same : j = i
    · exact same ▸ books
    · obtain ⟨pipes, accepted, returned⟩ := others j same
      rw [pipes, accepted, returned]
      exact balanced.books j

theorem Balanced.change {call : Call} (balanced : w.Balanced) (change : w.Change call after) :
    after.Balanced := by
  cases change with
  | idle => exact balanced
  | @created i free =>
    refine balanced.at_slot (i := i) ?_ ?_ ?_
    · simpa using Pipe.created_sound (w.pipes i)
    · simp [Pipe.contents]
    · simp +contextual
  | @received _ i found _ maxLen =>
    -- What leaves the front of the pipe goes behind what was handed out before.
    obtain ⟨bytes, kept, sound⟩ := Pipe.read_spec (balanced.sound i) maxLen
    refine balanced.at_slot (i := i) ?_ ?_ ?_
    · simpa using sound
    · simp [bytes, kept, balanced.books i]
    · simp +contextual
  | @written _ i found data =>
    obtain ⟨appended, sound⟩ := Pipe.write_spec (balanced.sound i) data
    refine balanced.at_slot (i := i) ?_ ?_ ?_
    · simpa using sound
    · simp [appended, balanced.books i]
    · simp +contextual
  | @closed _ i found isReadEnd => ?_
  obtain ⟨kept, sound⟩ := Pipe.close_spec (balanced.sound i) isReadEnd
  refine balanced.at_slot (i := i) ?_ ?_ ?_
  · simpa using sound
  · simp [kept, balanced.books i]
  · simp +contextual

theorem Balanced.run (balanced : w.Balanced) (calls : List Call) : (w.run calls).Balanced := by
  induction calls generalizing w with
  | nil => exact balanced
  | cons call rest ih => exact ih (balanced.change (w.change_step call))

/-- Nobody writes to a pipe behind the closed write end. -/
def WritesOpen (w : Watched) : List Call → Prop
  | [] => True
  | call :: rest =>
    (∀ id data i, call = .write id data → slotOf w.pipes id = some i →
      (w.pipes i).writerOpen = true) ∧ (w.step call).WritesOpen rest

/-- Either the slot has been given to another pipe, or the pipe has come to its end. -/
def Ended (w : Watched) (i : Fin maxPipes) (births : Nat) : Prop :=
  births < w.births i ∨
    w.births i = births ∧ (w.pipes i).count = 0 ∧ (w.pipes i).writerOpen = false

theorem Ended.change (ended : w.Ended i births) {call : Call} (change : w.Change call after)
    (writesOpen : ∀ id data j, call = .write id data → slotOf w.pipes id = some j →
      (w.pipes j).writerOpen = true) : after.Ended i births := by
  cases change with
  | idle => exact ended
  | @created j free =>
    by_cases same : i = j
    · -- The slot has a new pipe from here on.
      subst same
      left
      rcases ended with later | ⟨here, -⟩ <;> simp only [Function.update_self] <;> omega
    · simpa [Ended, same] using ended
  | @received _ j found _ maxLen =>
    by_cases same : i = j
    · subst same
      rcases ended with later | ⟨here, empty, closed⟩
      · exact .inl later
      · exact .inr ⟨here, by simp [Pipe.read, empty, closed]⟩
    · simpa [Ended, same] using ended
  | @written _ j found data =>
    by_cases same : i = j
    · subst same
      rcases ended with later | ⟨-, -, closed⟩
      · exact .inl later
      · -- Nobody writes here any more.
        simp [writesOpen _ _ _ rfl found] at closed
    · simpa [Ended, same] using ended
  | @closed _ j found isReadEnd => ?_
  by_cases same : i = j
  · subst same
    rcases ended with later | ⟨here, empty, closed⟩
    · exact .inl later
    · exact .inr ⟨here, by simp [Pipe.close_eq, empty, closed]⟩
  · simpa [Ended, same] using ended

theorem Ended.run (ended : w.Ended i births) {calls : List Call} (writesOpen : w.WritesOpen calls) :
    (w.run calls).Ended i births := by
  induction calls generalizing w with
  | nil => exact ended
  | cons call rest ih => exact ih (ended.change (w.change_step call) writesOpen.1) writesOpen.2

end Watched

/-- A read from a pipe in use is a read from its slot. -/
theorem rustPipeRead_used (used : (pipes i).inUse = true) (maxLen : UInt32) :
    (rustPipeRead pipes i.val true maxLen).1 = ((pipes i).read maxLen).1 ∧
      (rustPipeRead pipes i.val true maxLen).2.1 = ((pipes i).read maxLen).2.1 := by
  simp [rustPipeRead, slotOf_val used]

/-- What a read answers. -/
theorem Pipe.read_answer {p : Pipe} {maxLen : UInt32} (some : 1 ≤ maxLen.toNat) :
    ((p.read maxLen).1 = 0 ↔ p.contents = [] ∧ p.writerOpen = false) ∧
      ((p.read maxLen).1 = -2 ↔ p.contents = [] ∧ p.writerOpen = true) ∧
      (p.contents ≠ [] → (p.read maxLen).1 = (p.contents.take maxLen.toNat).length) := by
  rw [← length_eq_zero_iff, ne_eq, ← length_eq_zero_iff, length_take,
    Pipe.contents_length]
  by_cases none : p.count = 0
  · cases open_ : p.writerOpen <;> simp [Pipe.read, none, open_]
  simp only [Pipe.read, none, if_false]
  refine ⟨?_, ?_, fun _ => trivial⟩
  · simp only [false_and, iff_false]
    omega
  · simp only [false_and, iff_false]
    omega

/-- The pipe in one slot is a queue of bytes with two ends. -/
structure Watched.IsQueue (w : Watched) (i : Fin maxPipes) : Prop where
  -- What went in is what came out and then what is still in the buffer.
  fifo : w.accepted i = w.returned i ++ (w.pipes i).contents
  buffered : (w.pipes i).contents.length = (w.pipes i).count
  bounded : (w.pipes i).count ≤ pipeCapacity
  -- What a read answers.
  endOfFile : (w.pipes i).inUse = true → ∀ maxLen, 1 ≤ maxLen.toNat →
    ((rustPipeRead w.pipes i.val true maxLen).1 = 0 ↔
      (w.pipes i).contents = [] ∧ (w.pipes i).writerOpen = false)
  wouldBlock : (w.pipes i).inUse = true → ∀ maxLen, 1 ≤ maxLen.toNat →
    ((rustPipeRead w.pipes i.val true maxLen).1 = -2 ↔
      (w.pipes i).contents = [] ∧ (w.pipes i).writerOpen = true)
  front : (w.pipes i).inUse = true → (w.pipes i).contents ≠ [] → ∀ maxLen, 1 ≤ maxLen.toNat →
    (rustPipeRead w.pipes i.val true maxLen).2.1 = (w.pipes i).contents.take maxLen.toNat ∧
      (rustPipeRead w.pipes i.val true maxLen).1
        = ((w.pipes i).contents.take maxLen.toNat).length
  -- A pipe at its end stays there for as long as the slot is its own.
  final : (w.pipes i).contents = [] → (w.pipes i).writerOpen = false →
    ∀ later, w.WritesOpen later → (w.run later).births i = w.births i →
      ((w.run later).pipes i).inUse = true → ∀ maxLen, 1 ≤ maxLen.toNat →
        (rustPipeRead (w.run later).pipes i.val true maxLen).1 = 0
  reused : (rustPipeCreate w.pipes).1 = i.val →
    (w.pipes i).readerOpen = false ∧ (w.pipes i).writerOpen = false
  reusable : (w.pipes i).inUse = false ↔
    (w.pipes i).readerOpen = false ∧ (w.pipes i).writerOpen = false

theorem Watched.Balanced.isQueue {w : Watched} (balanced : w.Balanced) (i : Fin maxPipes) :
    w.IsQueue i where
  fifo := balanced.books i
  buffered := Pipe.contents_length _
  bounded := (balanced.sound i).fits
  endOfFile used maxLen some := by
    rw [(rustPipeRead_used used maxLen).1]
    exact (Pipe.read_answer some).1
  wouldBlock used maxLen some := by
    rw [(rustPipeRead_used used maxLen).1]
    exact (Pipe.read_answer some).2.1
  front used nonempty maxLen some := by
    obtain ⟨answer, bytes⟩ := rustPipeRead_used used maxLen
    rw [answer, bytes]
    exact ⟨(Pipe.read_spec (balanced.sound i) maxLen).1, (Pipe.read_answer some).2.2 nonempty⟩
  final empty closed later writesOpen same used maxLen some := by
    have none : (w.pipes i).count = 0 := by rw [← Pipe.contents_length, empty]; rfl
    have ended : w.Ended i (w.births i) := .inr ⟨rfl, none, closed⟩
    -- The slot has not been given away, so it is the pipe that has come to its end.
    rcases ended.run writesOpen with later | ⟨-, none, closed⟩
    · omega
    · rw [(rustPipeRead_used used maxLen).1, (Pipe.read_answer some).1]
      exact ⟨length_eq_zero_iff.mp (by simpa using none), closed⟩
  reused created := by
    have ends := (balanced.sound i).ends
    unfold rustPipeCreate at created
    split at created
    · omega
    · rename_i j found
      have same : j = i := Fin.ext (by simpa using created)
      have free := Table.first?_eq_some found
      simp_all
  reusable := by simp [(balanced.sound i).ends]

/-- From power-up on, whatever the calls, every slot is a queue of bytes; its end of file is final
as long as nobody writes behind a closed write end. -/
theorem pipes_are_queues (calls : List Call) (i : Fin maxPipes) :
    (Watched.run {} calls).IsQueue i :=
  (Watched.Balanced.boot.run calls).isQueue i

/-- A write behind the closed write end is taken in: a read that had found the end of the file finds
a byte behind it. -/
theorem write_after_end_of_file :
    let ended := Watched.run {} [.create, .close 0 false]
    (rustPipeRead ended.pipes 0 true 16).1 = 0 ∧
      (rustPipeWrite ended.pipes 0 (some [7])).1 = 1 ∧
      (rustPipeRead (rustPipeWrite ended.pipes 0 (some [7])).2 0 true 16).1 = 1 ∧
      (rustPipeRead (rustPipeWrite ended.pipes 0 (some [7])).2 0 true 16).2.1 = [7] := by
  decide

end NovaOs.Pipes
