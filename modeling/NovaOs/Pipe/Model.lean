import NovaOs.Lib.Bytes
import NovaOs.Lib.Ring
import NovaOs.Lib.Table

/-! The pipes of `kernel/rust/pipe.rs`, one function at a time. -/

namespace NovaOs.Pipes

def maxPipes : Nat := 8
def pipeCapacity : Nat := 1024

theorem pipeCapacity_pos : 0 < pipeCapacity := by decide

/-- The first cell of a buffer. -/
def start : Fin pipeCapacity := ⟨0, pipeCapacity_pos⟩

structure Pipe where
  buf : Fin pipeCapacity → UInt8 := fun _ => 0
  readPos : Fin pipeCapacity := start
  writePos : Fin pipeCapacity := start
  count : Nat := 0
  inUse : Bool := false
  readerOpen : Bool := false
  writerOpen : Bool := false

/-- The cell behind another, round and round. -/
def next (pos : Fin pipeCapacity) : Fin pipeCapacity :=
  ⟨(pos.val + 1) % pipeCapacity, Nat.mod_lt _ pipeCapacity_pos⟩

namespace Pipe

/-- The loop of a read: so many bytes, one at a time. -/
def copyOut : Nat → Pipe → Bytes × Pipe
  | 0, p => ([], p)
  | n + 1, p =>
    let (rest, after) := copyOut n { p with readPos := next p.readPos }
    (p.buf p.readPos :: rest, after)

/-- The loop of a write. -/
def copyIn : Bytes → Pipe → Pipe
  | [], p => p
  | byte :: rest, p =>
    copyIn rest { p with buf := Function.update p.buf p.writePos byte, writePos := next p.writePos }

/-- A read from a pipe in use: the answer, the bytes it hands out, and the pipe afterwards. -/
def read (p : Pipe) (maxLen : UInt32) : Int × Bytes × Pipe :=
  if p.count = 0 then (if p.writerOpen then -2 else 0, [], p)
  else
    let toCopy := min maxLen.toNat p.count
    let (bytes, after) := p.copyOut toCopy
    (toCopy, bytes, { after with count := p.count - toCopy })

/-- A write to a pipe in use: the answer, and the pipe afterwards. -/
def write (p : Pipe) (data : Bytes) : Int × Pipe :=
  if !p.readerOpen then (-1, p)
  else
    let toCopy := min data.length (pipeCapacity - p.count)
    (toCopy, { p.copyIn (data.take toCopy) with count := p.count + toCopy })

/-- Closing one end; a pipe with both ends closed is given up. -/
def close (p : Pipe) (isReadEnd : Bool) : Pipe :=
  let p := if isReadEnd then { p with readerOpen := false } else { p with writerOpen := false }
  if !p.readerOpen && !p.writerOpen then { p with inUse := false } else p

end Pipe

/-- All the pipes there are. -/
abbrev PipeTable := Fin maxPipes → Pipe

variable (pipes : PipeTable)

/-- The slot a number stands for, while there is a pipe in it. -/
def slotOf (id : Int) : Option (Fin maxPipes) :=
  if inside : 0 ≤ id ∧ id.toNat < maxPipes then
    if (pipes ⟨id.toNat, inside.2⟩).inUse then some ⟨id.toNat, inside.2⟩ else none
  else none

/-- The first free slot becomes a pipe with both ends open. -/
def rustPipeCreate : Int × PipeTable :=
  match Table.first? (fun p => !p.inUse) pipes with
  | none => (-1, pipes)
  | some i =>
    (i.val, Function.update pipes i
      { pipes i with
        inUse := true, readPos := start, writePos := start, count := 0
        readerOpen := true, writerOpen := true })

/-- No buffer to read into stands for a null pointer. -/
def rustPipeRead (id : Int) (buffer : Bool) (maxLen : UInt32) : Int × Bytes × PipeTable :=
  match slotOf pipes id with
  | none => (-1, [], pipes)
  | some i =>
    if !buffer then (-1, [], pipes)
    else
      let (answer, bytes, after) := (pipes i).read maxLen
      (answer, bytes, Function.update pipes i after)

def rustPipeWrite (id : Int) (data : Option Bytes) : Int × PipeTable :=
  match slotOf pipes id, data with
  | some i, some data =>
    let (answer, after) := (pipes i).write data
    (answer, Function.update pipes i after)
  | _, _ => (-1, pipes)

def rustPipeClose (id : Int) (isReadEnd : Bool) : PipeTable :=
  match slotOf pipes id with
  | none => pipes
  | some i => Function.update pipes i ((pipes i).close isReadEnd)

/-- A call, by whoever makes it. -/
inductive Call where
  | create
  | read (id : Int) (buffer : Bool) (maxLen : UInt32)
  | write (id : Int) (data : Option Bytes)
  | close (id : Int) (isReadEnd : Bool)

/-- The pipes, with what each has taken in and handed out since it was created. -/
structure Watched where
  pipes : PipeTable := fun _ => {}
  accepted : Fin maxPipes → Bytes := fun _ => []
  returned : Fin maxPipes → Bytes := fun _ => []
  -- How many pipes there have been in each slot.
  births : Fin maxPipes → Nat := fun _ => 0

namespace Watched

def step (w : Watched) : Call → Watched
  | .create =>
    match Table.first? (fun p => !p.inUse) w.pipes with
    | none => { w with pipes := (rustPipeCreate w.pipes).2 }
    | some i =>
      { pipes := (rustPipeCreate w.pipes).2
        accepted := Function.update w.accepted i []
        returned := Function.update w.returned i []
        births := Function.update w.births i (w.births i + 1) }
  | .read id buffer maxLen =>
    let (_, bytes, pipes) := rustPipeRead w.pipes id buffer maxLen
    match slotOf w.pipes id with
    | none => { w with pipes := pipes }
    | some i =>
      { w with pipes := pipes, returned := Function.update w.returned i (w.returned i ++ bytes) }
  | .write id data =>
    let (answer, pipes) := rustPipeWrite w.pipes id data
    match slotOf w.pipes id, data with
    -- The answer says how many of the bytes were accepted; a refusal is negative.
    | some i, some data =>
      { w with
        pipes := pipes
        accepted := Function.update w.accepted i (w.accepted i ++ data.take answer.toNat) }
    | _, _ => { w with pipes := pipes }
  | .close id isReadEnd => { w with pipes := rustPipeClose w.pipes id isReadEnd }

def run (w : Watched) (calls : List Call) : Watched :=
  calls.foldl step w

end Watched

end NovaOs.Pipes
