import NovaOs.Lib.Ring
import NovaOs.Sound.Streams

/-!
The ring of periods between the mixer and the card (`kernel/rust/mixer.rs`): a pump that runs every
timer tick, and a card that plays descriptors in order and halts after the last valid one.
-/

namespace NovaOs.Sound

/-- The number of buffer descriptors of the card. -/
def ringPeriods : Nat := 32

/-- Periods kept ahead of the card. -/
def targetAhead : Nat := 6

/-- Periods mixed before a start. -/
def startPrefill : Nat := 3

/-- The card, with what has been written to it and what it has played. -/
structure Card where
  present : Bool
  ring : Fin ringPeriods → Period
  /-- The descriptor that is being played. -/
  civ : Nat
  /-- The last valid descriptor. -/
  lvi : Nat
  running : Bool
  written : List Period
  played : List Period

namespace Card

variable (card : Card)

def ringStart (lvi : Nat) : Card := { card with civ := 0, lvi, running := true }

def ringSetLvi (idx : Nat) : Card := { card with lvi := idx }

def writePeriod (idx : Nat) (samples : Period) : Card :=
  if within : idx < ringPeriods then
    { card with
      ring := Function.update card.ring ⟨idx, within⟩ samples
      written := card.written ++ [samples] }
  else card

/-- The card plays one descriptor to its end. -/
def consume : Card :=
  if card.running then
    let card := { card with
      played := card.played ++ [card.ring ⟨card.civ % ringPeriods, Nat.mod_lt _ (by decide)⟩] }
    if card.civ = card.lvi then { card with running := false }
    else { card with civ := (card.civ + 1) % ringPeriods }
  else card

end Card

/-- The mixer: what is mixed, and the books about the card's ring. -/
structure Mixer where
  sources : Sources
  running : Bool
  writeIdx : Nat
  queued : Nat
  lastCiv : Nat
  hwUnderruns : UInt32
  restarts : UInt32
  periodsWritten : UInt32

/-- The mixer and the card it feeds. -/
structure System where
  mixer : Mixer
  card : Card

namespace System

variable (s : System)

def lastWritten : Nat := (s.mixer.writeIdx + ringPeriods - 1) % ringPeriods

def fillOne : System :=
  let (buf, sources) := s.mixer.sources.mixBlock
  { card := s.card.writePeriod s.mixer.writeIdx buf
    mixer := { s.mixer with
      sources
      writeIdx := (s.mixer.writeIdx + 1) % ringPeriods
      queued := s.mixer.queued + 1
      periodsWritten := s.mixer.periodsWritten + 1 } }

/-- Fills while fewer periods are queued than there should be. -/
def topUp : Nat → System → System
  | 0, s => s
  | turns + 1, s => if s.mixer.queued < targetAhead then topUp turns s.fillOne else s

/-- Mixes so many periods. -/
def fillMany : Nat → System → System
  | 0, s => s
  | turns + 1, s => fillMany turns s.fillOne

/-- The card starts with what is in the ring. -/
def launch : System :=
  { card := s.card.ringStart s.lastWritten
    mixer := { s.mixer with running := true, restarts := s.mixer.restarts + 1 } }

/-- The ring is empty, and filled from descriptor 0 on. -/
def rewind : System :=
  { s with mixer := { s.mixer with writeIdx := 0, queued := 0, lastCiv := 0 } }

/-- A start from descriptor 0, with a few periods mixed. -/
def coldStart : System := (fillMany startPrefill s.rewind).launch

/-- What the card has played since the last tick is taken off the queue. -/
def account : System :=
  let civ := s.card.civ % ringPeriods
  let consumed := (civ + ringPeriods - s.mixer.lastCiv) % ringPeriods
  let mixer := { s.mixer with lastCiv := civ }
  if mixer.queued < consumed then
    { s with mixer := { mixer with hwUnderruns := mixer.hwUnderruns + 1, queued := 0 } }
  else { s with mixer := { mixer with queued := mixer.queued - consumed } }

/-- The card has finished the last valid descriptor. If it was meant to go on, that is an
underrun. -/
def halted (active : Bool) : System :=
  { s with mixer := { s.mixer with
    hwUnderruns := if active then s.mixer.hwUnderruns + 1 else s.mixer.hwUnderruns
    running := false
    queued := 0 } }

/-- The ring is topped up, and its end moved on. -/
def refill : System :=
  let s := topUp targetAhead s
  { s with card := s.card.ringSetLvi s.lastWritten }

/-- The pump, called every timer tick. -/
def pump : System :=
  if s.card.present then
    let active := s.mixer.sources.hasActivity
    if s.mixer.running then
      if s.account.card.running then
        if active then s.account.refill else s.account
      else if active then (s.account.halted active).coldStart
      else s.account.halted active
    else if active then s.coldStart
    else s
  else s

end System

/-- What can happen: the card plays a descriptor, processes open, fill, control and close streams or
sound voices, or the timer ticks. -/
inductive Event where
  | consume
  | calls (sources : Sources)
  | tick

namespace System

def step (s : System) : Event → System
  | .consume => { s with card := s.card.consume }
  | .calls sources => { s with mixer := { s.mixer with sources } }
  | .tick => s.pump

def run (s : System) (events : List Event) : System := events.foldl step s

/-- A mixer that has done nothing yet, and a card that stands still. -/
def start (sources : Sources) (present : Bool) (ring : Fin ringPeriods → Period) (civ lvi : Nat) :
    System where
  mixer := {
    sources, running := false, writeIdx := 0, queued := 0, lastCiv := 0
    hwUnderruns := 0, restarts := 0, periodsWritten := 0 }
  card := { present, ring, civ, lvi, running := false, written := [], played := [] }

end System

end NovaOs.Sound
