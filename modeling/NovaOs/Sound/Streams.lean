import Mathlib.Data.List.Basic

/-!
The mixing half of the sound mixer (`kernel/rust/mixer.rs`): streams of samples and built-in voices,
summed into one period at a time.
-/

namespace NovaOs.Sound

def unity : UInt32 := 256

def periodFrames : Nat := 480

def streamRingSamples : UInt32 := 16384

def tapFrames : UInt32 := 4096

/-- A frame of both channels. -/
abbrev Frame := Int32 × Int32

/-- The samples of one period, left and right in turn. -/
abbrev Period := List Int16

structure Stream where
  inUse : Bool
  closing : Bool
  paused : Bool
  /-- At least one frame has been produced. -/
  started : Bool
  inUnderrun : Bool
  /-- The frame the resampler stands at is in `cur`. -/
  haveCur : Bool
  gen : UInt32
  channels : UInt32
  /-- Frames consumed for each frame produced, in 16.16 fixed point. -/
  step : UInt32
  volume : UInt32
  read : UInt32
  count : UInt32
  phase : UInt32
  cur : Frame
  played : UInt32
  underrunEvents : UInt32
  underrunFrames : UInt32
  ring : List Int16

structure Voice where
  active : Bool
  high : Bool
  half : UInt32
  inHalf : UInt32
  amp : Int32
  left : UInt32

/-- Everything a mix reads and changes. -/
structure Sources where
  streams : List Stream
  voices : List Voice
  masterCut : UInt32
  muted : Bool
  tap : List Int16
  tapPos : UInt32
  mixedFrames : UInt32
  clipped : UInt32

def nextGen (g : UInt32) : UInt32 :=
  let n := (g + 1) &&& 0x00FFFFFF
  if n = 0 then 1 else n

namespace Stream

def capacity (s : Stream) : UInt32 := streamRingSamples / s.channels

/-- The oldest frame, a single channel standing for both. -/
def peek (s : Stream) : Option Frame :=
  if s.count = 0 then none
  else
    let base := s.read.toNat * s.channels.toNat
    let left := (s.ring.getD base 0).toInt32
    some (if s.channels = 1 then (left, left) else (left, (s.ring.getD (base + 1) 0).toInt32))

def pop (s : Stream) : Option (Frame × Stream) :=
  s.peek.map fun frame =>
    (frame, { s with read := (s.read + 1) % s.capacity, count := s.count - 1 })

/-- Counts an underrun unless the stream is in one. -/
def noteUnderrun (s : Stream) : Stream :=
  if s.inUnderrun then s else { s with inUnderrun := true, underrunEvents := s.underrunEvents + 1 }

/-- Moves on by whole frames until the phase is within one again. -/
def advance : Nat → Stream → Stream
  | 0, s => s
  | turns + 1, s =>
    if 65536 ≤ s.phase then
      let s := { s with phase := s.phase - 65536 }
      match s.pop with
      | some (frame, s) => advance turns { s with cur := frame }
      | none =>
        -- The next frame has not arrived.
        let s := { s with haveCur := false, phase := 0 }
        if s.started then s.noteUnderrun else s
    else s

/-- A frame between two, so many parts of 65536 of the way. -/
def interpolate (cur next : Int32) (phase : UInt32) : Int32 :=
  cur + (((next - cur).toInt64 * phase.toUInt64.toInt64) >>> 16).toInt32

/-- What a stream that stands at a frame produces, and where it stands then. -/
def produce (s : Stream) : Frame × Stream :=
  let s := { s with inUnderrun := false }
  let out :=
    if s.phase = 0 then s.cur
    else
      match s.peek with
      | some next => (interpolate s.cur.1 next.1 s.phase, interpolate s.cur.2 next.2 s.phase)
      | none => s.cur
  -- A phase below 2 ^ 32 is within one frame after at most 2 ^ 16 turns.
  let s := advance 65536 { s with phase := s.phase + s.step }
  (out, { s with played := s.played + 1 })

def nextFrame (s : Stream) : Option Frame × Stream :=
  if s.haveCur then s.produce.map some id
  else
    match s.pop with
    | some (frame, s) =>
      { s with cur := frame, haveCur := true, phase := 0, started := true }.produce.map some id
    | none =>
      if s.started then (none, { s with underrunFrames := s.underrunFrames + 1 }.noteUnderrun)
      else (none, s)

def wantsToPlay (s : Stream) : Bool := s.inUse && !s.paused && (0 < s.count || s.haveCur)

def free (s : Stream) : Stream :=
  { s with
    inUse := false, closing := false, paused := false, count := 0, haveCur := false
    gen := nextGen s.gen }

end Stream

def Voice.next (v : Voice) : Int32 × Voice :=
  let out := if v.high then v.amp else -v.amp
  let v := { v with inHalf := v.inHalf + 1 }
  let v := if v.half ≤ v.inHalf then { v with high := !v.high, inHalf := 0 } else v
  let v := { v with left := v.left - 1 }
  (out, if v.left = 0 then { v with active := false } else v)

/-- Saturates to 16 bits; the count says whether it had to. -/
def clamp16 (v : Int32) : Int16 × UInt32 :=
  if 32767 < v then (32767, 1) else if v < -32768 then (-32768, 1) else (v.toInt16, 0)

/-- The next frame of every stream that plays, added to a sum. -/
def mixStreams : List Stream → Frame → Frame × List Stream
  | [], sum => (sum, [])
  | s :: rest, sum =>
    let (sum, s) :=
      if !s.inUse || s.paused then (sum, s)
      else
        match s.nextFrame with
        | (some frame, s) =>
          let v := s.volume.toInt32
          ((sum.1 + ((frame.1 * v) >>> 8), sum.2 + ((frame.2 * v) >>> 8)), s)
        | (none, s) => (sum, s)
    let (sum, rest) := mixStreams rest sum
    (sum, s :: rest)

def mixVoices : List Voice → Frame → Frame × List Voice
  | [], sum => (sum, [])
  | v :: rest, sum =>
    let (sum, v) :=
      if v.active then
        let (x, v) := v.next
        ((sum.1 + x, sum.2 + x), v)
      else (sum, v)
    let (sum, rest) := mixVoices rest sum
    (sum, v :: rest)

namespace Sources

/-- One frame of the sum, which also goes into the tap. -/
def mixFrame (m : Sources) : Int16 × Int16 × Sources :=
  let master := if m.muted then 0 else (unity - m.masterCut).toInt32
  let (sum, streams) := mixStreams m.streams (0, 0)
  let (sum, voices) := mixVoices m.voices sum
  let (left, overLeft) := clamp16 ((sum.1 * master) >>> 8)
  let (right, overRight) := clamp16 ((sum.2 * master) >>> 8)
  let t := m.tapPos.toNat * 2
  (left, right, { m with
    streams, voices
    clipped := m.clipped + (overLeft + overRight)
    tap := (m.tap.set t left).set (t + 1) right
    tapPos := (m.tapPos + 1) % tapFrames })

def mixFrames : Nat → Sources → Period × Sources
  | 0, m => ([], m)
  | frames + 1, m =>
    let (left, right, m) := m.mixFrame
    let (rest, m) := mixFrames frames m
    (left :: right :: rest, m)

/-- Mixes one period. Streams that were closing and have been played out are done. -/
@[irreducible] def mixBlock (m : Sources) : Period × Sources :=
  let (out, m) := mixFrames periodFrames m
  (out, { m with
    mixedFrames := m.mixedFrames + UInt32.ofNat periodFrames
    streams := m.streams.map fun s =>
      if s.inUse && s.closing && s.count == 0 && !s.haveCur then s.free else s })

def hasActivity (m : Sources) : Bool := m.streams.any (·.wantsToPlay) || m.voices.any (·.active)

end Sources

end NovaOs.Sound
