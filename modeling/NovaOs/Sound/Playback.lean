import NovaOs.Sound.Pump

/-!
What is heard: the card's ring is a queue, from which the card takes what the pump has put in, so
that every period is played once and in order.
-/

namespace NovaOs.Sound

open List

variable {card : Card} {rest : List Period}

/-- The periods that have been written and not played to their end lie in the ring in order, the
first of them in descriptor `head`. -/
def Card.Queue (card : Card) (head : Nat) (rest : List Period) : Prop :=
  card.written = card.played ++ rest ∧ ∃ ring : Ring Period ringPeriods,
    ring.cells = card.ring ∧ ring.head = head ∧ ring.contents = rest

namespace Card.Queue

variable {card : Card} {head : Nat} {rest : List Period}

/-- A queue with nothing in it may start at any descriptor. -/
theorem of_empty (all : card.written = card.played) (within : head < ringPeriods) :
    card.Queue head [] := by
  refine ⟨by rw [all, append_nil], ⟨card.ring, head, 0, within, Nat.zero_le _⟩, rfl, rfl, rfl⟩

theorem head_lt (queue : card.Queue head rest) : head < ringPeriods := by
  obtain ⟨-, ring, -, rfl, -⟩ := queue
  exact ring.head_lt

/-- A period in the queue is in the descriptor it was written to. -/
theorem get (queue : card.Queue head rest) {i : Nat} (within : i < rest.length) :
    card.ring ⟨(head + i) % ringPeriods, Nat.mod_lt _ (by decide)⟩ = rest[i] := by
  obtain ⟨-, ring, cells, rfl, rfl⟩ := queue
  rw [← cells]
  simp [Ring.contents, Ring.cell]

/-- A period written behind the last one joins the queue; with fewer than 32 waiting, it takes the
descriptor of none of them. -/
theorem write (queue : card.Queue head rest) (room : rest.length < ringPeriods) (samples : Period) :
    (card.writePeriod ((head + rest.length) % ringPeriods) samples).Queue head
      (rest ++ [samples]) := by
  obtain ⟨account, ring, cells, rfl, contents⟩ := queue
  have length : rest.length = ring.len := by rw [← contents, Ring.contents_length]
  have one : min (ringPeriods - ring.len) [samples].length = 1 := by
    rw [length_singleton]
    omega
  rw [writePeriod, dif_pos (Nat.mod_lt _ (by decide))]
  refine ⟨by simp [account], (ring.write [samples]).2, ?_, rfl, ?_⟩
  · -- A single value is stored in the one cell behind the last.
    simp only [Ring.write, one, take_succ_cons, take_zero, Ring.store, cells, length]
  · rw [Ring.contents_write, contents, take_of_length_le (by rw [length_singleton]; omega)]

end Card.Queue

/-- The card plays the first period of the queue. It goes on to the next descriptor, or halts. -/
theorem Card.consume_queue {first : Period} (on : card.running = true)
    (queue : card.Queue card.civ (first :: rest)) :
    card.consume.Queue ((card.civ + 1) % ringPeriods) rest
      ∧ card.consume.lvi = card.lvi ∧ card.consume.present = card.present
      ∧ card.consume.running = !(card.civ == card.lvi)
      ∧ card.consume.civ = if card.civ = card.lvi then card.civ
        else (card.civ + 1) % ringPeriods := by
  have heard : card.ring ⟨card.civ % ringPeriods, Nat.mod_lt _ (by decide)⟩ = first := by
    have := queue.get (i := 0) (Nat.zero_lt_succ _)
    simpa using this
  obtain ⟨account, ring, cells, at_, contents⟩ := queue
  have some_ : 1 ≤ ring.len := by
    rw [← ring.contents_length, contents, length_cons]
    omega
  have shorter : (ring.consume 1).contents = rest := by
    rw [Ring.contents_consume, contents, drop_succ_cons, drop_zero]
  have moved : (ring.consume 1).head = (card.civ + 1) % ringPeriods := by
    have head : (ring.consume 1).head = (ring.head + min 1 ring.len) % ringPeriods := rfl
    rw [head, at_, Nat.min_eq_left some_]
  have kept : card.written = (card.played ++ [first]) ++ rest := by
    rw [account, append_assoc, singleton_append]
  rw [consume, if_pos on]
  dsimp only
  rw [heard]
  by_cases last : card.civ = card.lvi
  · rw [if_pos last, if_pos last]
    exact ⟨⟨kept, ring.consume 1, cells, moved, shorter⟩, rfl, rfl, by simp [last], rfl⟩
  · rw [if_neg last, if_neg last]
    exact ⟨⟨kept, ring.consume 1, cells, moved, shorter⟩, rfl, rfl, by simp [last, on], rfl⟩

theorem Card.consume_written (card : Card) : card.consume.written = card.written := by
  rw [consume]
  split
  · dsimp only
    split
    · rfl
    · rfl
  · rfl

/-- A card that goes on playing plays everything in its queue. -/
theorem Card.Queue.plays (queue : card.Queue card.civ rest) (few : rest.length < ringPeriods)
    (on : rest ≠ [] → card.running = true
      ∧ card.lvi = (card.civ + (rest.length - 1)) % ringPeriods) :
    (Nat.iterate Card.consume rest.length card).played = card.written := by
  induction rest generalizing card with
  | nil => exact (queue.1.trans (append_nil _)).symm
  | cons first rest ih =>
    obtain ⟨running, lvi⟩ := on (cons_ne_nil _ _)
    obtain ⟨next, lvi', -, running', civ⟩ := Card.consume_queue running queue
    rw [length_cons] at few lvi
    rw [length_cons, Function.iterate_succ_apply, ← card.consume_written]
    by_cases none : rest = []
    · subst none
      exact (next.1.trans (append_nil _)).symm
    -- Others wait behind the first, so that it is not the last valid one.
    have some_ : 0 < rest.length := length_pos_iff.mpr none
    have further : card.civ ≠ card.lvi := by
      rw [lvi]
      simp only [ringPeriods] at *
      omega
    rw [if_neg further] at civ
    rw [← civ] at next
    refine ih next (by omega) fun _ => ⟨?_, ?_⟩
    · rw [running']
      simpa using further
    · rw [lvi', lvi, civ]
      simp only [ringPeriods] at *
      omega

/-- The books of the pump between ticks, after the card has played `done` periods since the last. -/
structure System.Busy (s : System) (done : Nat) : Prop where
  present : s.card.present = true
  some_queued : 1 ≤ s.mixer.queued
  few_queued : s.mixer.queued ≤ targetAhead
  lastCiv : s.mixer.lastCiv < ringPeriods
  writeIdx : s.mixer.writeIdx = (s.mixer.lastCiv + s.mixer.queued) % ringPeriods
  lvi : s.card.lvi = (s.mixer.lastCiv + (s.mixer.queued - 1)) % ringPeriods
  on : s.card.running = true → done < s.mixer.queued
    ∧ s.card.civ = (s.mixer.lastCiv + done) % ringPeriods
    ∧ ∃ rest, s.card.Queue s.card.civ rest ∧ rest.length = s.mixer.queued - done
  off : s.card.running = false → done = s.mixer.queued ∧ s.card.civ = s.card.lvi
    ∧ s.card.written = s.card.played

/-- A mixer that does not play has nothing queued, and everything has been heard. -/
structure System.Idle (s : System) : Prop where
  queued : s.mixer.queued = 0
  off : s.card.running = false
  all : s.card.written = s.card.played

/-- The invariant: the pump has stopped, or its books are right. -/
def System.Booked (s : System) : Prop :=
  (s.mixer.running = false ∧ s.Idle) ∨ (s.mixer.running = true ∧ ∃ done, s.Busy done)

namespace System

variable {s : System} {head : Nat} {rest : List Period} {done turns : Nat}

/-- The card plays one more period, or stands still. -/
theorem Busy.consume (busy : s.Busy done) :
    ∃ next, Busy { s with card := s.card.consume } next := by
  cases on : s.card.running with
  | false =>
    have still : s.card.consume = s.card := by rw [Card.consume, on]; rfl
    exact ⟨done, by rw [still]; exact busy⟩
  | true => ?_
  obtain ⟨more, civ, rest, queue, length⟩ := busy.on on
  have few := busy.few_queued
  have lastCiv := busy.lastCiv
  obtain ⟨first, rest, rfl⟩ : ∃ first tail, rest = first :: tail :=
    exists_cons_of_length_pos (by omega)
  obtain ⟨queue, lvi, present, running, moved⟩ := Card.consume_queue on queue
  rw [length_cons] at length
  -- It is the last period exactly if no other is queued behind it.
  have last : s.card.civ = s.card.lvi ↔ done + 1 = s.mixer.queued := by
    rw [civ, busy.lvi]
    simp only [ringPeriods, targetAhead] at *
    omega
  refine ⟨done + 1, present.trans busy.present, busy.some_queued, few, lastCiv, busy.writeIdx,
    lvi.trans busy.lvi, ?_, ?_⟩
  · intro still
    rw [running] at still
    have further : s.card.civ ≠ s.card.lvi := by simpa using still
    have : done + 1 ≠ s.mixer.queued := fun all => further (last.mpr all)
    rw [if_neg further] at moved
    refine ⟨show done + 1 < s.mixer.queued by omega, ?_, rest, ?_,
      show rest.length = s.mixer.queued - (done + 1) by omega⟩
    · rw [moved, civ]
      simp only [ringPeriods] at *
      omega
    · rw [moved]
      exact queue
  · intro halted
    rw [running] at halted
    have here : s.card.civ = s.card.lvi := by simpa using halted
    have : done + 1 = s.mixer.queued := last.mp here
    rw [if_pos here] at moved
    refine ⟨this, by rw [moved, lvi, here], ?_⟩
    obtain rfl : rest = [] := eq_nil_of_length_eq_zero (by omega)
    exact queue.1.trans (append_nil _)

/-- The queue starts at a descriptor, and the pump's books agree with it. -/
structure Filled (s : System) (head : Nat) (rest : List Period) : Prop where
  queue : s.card.Queue head rest
  writeIdx : s.mixer.writeIdx = (head + rest.length) % ringPeriods
  queued : s.mixer.queued = rest.length

/-- What filling leaves as it was. -/
structure SameCourse (s after : System) : Prop where
  present : after.card.present = s.card.present
  civ : after.card.civ = s.card.civ
  running : after.card.running = s.card.running
  played : after.card.played = s.card.played
  lastCiv : after.mixer.lastCiv = s.mixer.lastCiv
  pumping : after.mixer.running = s.mixer.running

theorem SameCourse.trans {first second third : System} (earlier : SameCourse first second)
    (later : SameCourse second third) : SameCourse first third where
  present := later.present.trans earlier.present
  civ := later.civ.trans earlier.civ
  running := later.running.trans earlier.running
  played := later.played.trans earlier.played
  lastCiv := later.lastCiv.trans earlier.lastCiv
  pumping := later.pumping.trans earlier.pumping

/-- One period more is mixed and put behind the last. -/
theorem Filled.fillOne (filled : s.Filled head rest) (room : rest.length < ringPeriods) :
    ∃ period, s.fillOne.Filled head (rest ++ [period]) ∧ SameCourse s s.fillOne := by
  obtain ⟨buf, sources, mixed⟩ : ∃ buf sources, s.mixer.sources.mixBlock = (buf, sources) :=
    ⟨_, _, (Prod.eta _).symm⟩
  have place : s.mixer.writeIdx < ringPeriods := by
    rw [filled.writeIdx]
    exact Nat.mod_lt _ (by decide)
  have queue := filled.queue.write room buf
  rw [← filled.writeIdx] at queue
  refine ⟨buf, ⟨?_, ?_, ?_⟩, ?_⟩
  · simp only [System.fillOne, mixed]
    exact queue
  · simp only [System.fillOne, mixed, filled.writeIdx, length_append, length_singleton]
    rw [Nat.mod_add_mod, Nat.add_assoc]
  · simp only [System.fillOne, mixed, filled.queued, length_append, length_singleton]
  · constructor <;> simp only [System.fillOne, mixed, Card.writePeriod, dif_pos place]

/-- Several periods more, as long as there is room for them. -/
theorem Filled.fillMany (filled : s.Filled head rest) (room : rest.length + turns ≤ ringPeriods) :
    ∃ more, (System.fillMany turns s).Filled head more ∧ more.length = rest.length + turns
      ∧ SameCourse s (System.fillMany turns s) := by
  induction turns generalizing s rest with
  | zero => exact ⟨rest, filled, rfl, rfl, rfl, rfl, rfl, rfl, rfl⟩
  | succ turns ih =>
    obtain ⟨period, next, course⟩ := filled.fillOne (by omega)
    obtain ⟨more, done, length, course'⟩ := ih next
      (by rw [length_append, length_singleton]; omega)
    rw [length_append, length_singleton] at length
    exact ⟨more, done, by omega, course.trans course'⟩

/-- The loop fills up to the number of periods that are kept ahead. -/
theorem Filled.topUp (filled : s.Filled head rest) (few : rest.length ≤ targetAhead)
    (enough : targetAhead ≤ rest.length + turns) :
    ∃ more, (System.topUp turns s).Filled head more ∧ more.length = targetAhead
      ∧ SameCourse s (System.topUp turns s) := by
  induction turns generalizing s rest with
  | zero => exact ⟨rest, filled, by omega, rfl, rfl, rfl, rfl, rfl, rfl⟩
  | succ turns ih =>
    rw [System.topUp]
    by_cases short : s.mixer.queued < targetAhead
    · rw [if_pos short]
      rw [filled.queued] at short
      obtain ⟨period, next, course⟩ := filled.fillOne (by
        simp only [ringPeriods, targetAhead] at *
        omega)
      obtain ⟨more, done, length, course'⟩ := ih next
        (by rw [length_append, length_singleton]; omega)
        (by rw [length_append, length_singleton]; omega)
      exact ⟨more, done, length, course.trans course'⟩
    · rw [if_neg short]
      rw [filled.queued] at short
      exact ⟨rest, filled, by omega, rfl, rfl, rfl, rfl, rfl, rfl⟩

/-- A ring that has been filled from where the card plays, and whose last valid index is the last
period in it, is in order. -/
theorem Filled.busy (filled : s.Filled s.mixer.lastCiv rest) (present : s.card.present = true)
    (some_ : 1 ≤ rest.length) (few : rest.length ≤ targetAhead) (on : s.card.running = true)
    (civ : s.card.civ = s.mixer.lastCiv) (lvi : s.card.lvi = s.lastWritten) : s.Busy 0 where
  present := present
  some_queued := by rw [filled.queued]; exact some_
  few_queued := by rw [filled.queued]; exact few
  lastCiv := filled.queue.head_lt
  writeIdx := by rw [filled.queued]; exact filled.writeIdx
  lvi := by
    have := filled.queue.head_lt
    rw [lvi, lastWritten, filled.writeIdx, filled.queued]
    simp only [ringPeriods, targetAhead] at *
    omega
  on := by
    intro _
    refine ⟨by rw [filled.queued]; omega, ?_, rest, ?_, by rw [filled.queued, Nat.sub_zero]⟩
    · rw [civ, Nat.add_zero, Nat.mod_eq_of_lt filled.queue.head_lt]
    · rw [civ]
      exact filled.queue
  off := by
    intro off
    rw [on] at off
    cases off

/-- A card that is started at the first descriptor of the queue. -/
theorem Filled.launch (filled : s.Filled 0 rest) (present : s.card.present = true)
    (some_ : 1 ≤ rest.length) (few : rest.length ≤ targetAhead) (zero : s.mixer.lastCiv = 0) :
    s.launch.Busy 0 ∧ s.launch.mixer.running = true := by
  have ready : s.launch.Filled s.launch.mixer.lastCiv rest := by
    have head : s.launch.mixer.lastCiv = 0 := zero
    rw [head]
    exact ⟨filled.queue, filled.writeIdx, filled.queued⟩
  exact ⟨ready.busy present some_ few rfl zero.symm rfl, rfl⟩

/-- Once everything has been heard, a start from descriptor 0 loses nothing. -/
theorem coldStart_busy (present : s.card.present = true) (all : s.card.written = s.card.played) :
    s.coldStart.Busy 0 ∧ s.coldStart.mixer.running = true := by
  have empty : s.rewind.Filled 0 [] := ⟨Card.Queue.of_empty all (by decide), rfl, rfl⟩
  -- Three periods are mixed; the card stands still meanwhile.
  obtain ⟨more, filled, length, course⟩ :=
    empty.fillMany (by decide : 0 + startPrefill ≤ ringPeriods)
  refine filled.launch (course.present.trans present) ?_ ?_ course.lastCiv
  · rw [length]
    decide
  · rw [length]
    decide

/-- The pump finds out how much has been played, and goes on with the rest. -/
theorem Busy.account (busy : s.Busy done) (on : s.card.running = true) :
    ∃ rest, s.account.Filled s.account.mixer.lastCiv rest ∧ 1 ≤ rest.length
      ∧ rest.length ≤ targetAhead ∧ s.account.card.civ = s.account.mixer.lastCiv
      ∧ s.account.mixer.running = s.mixer.running
      ∧ s.account.card.lvi = s.account.lastWritten := by
  obtain ⟨more, civ, rest, queue, length⟩ := busy.on on
  have few := busy.few_queued
  have lastCiv := busy.lastCiv
  have here : s.card.civ % ringPeriods = s.card.civ := Nat.mod_eq_of_lt queue.head_lt
  -- Fewer than 32 periods are queued, so that the distance is how many were played.
  have consumed : (s.card.civ + ringPeriods - s.mixer.lastCiv) % ringPeriods = done := by
    rw [civ]
    simp only [ringPeriods, targetAhead] at *
    omega
  have eq : s.account = { s with mixer := { s.mixer with
      lastCiv := s.card.civ, queued := s.mixer.queued - done } } := by
    simp only [System.account, here, consumed, if_neg (show ¬ s.mixer.queued < done by omega)]
  have place : s.mixer.writeIdx = (s.card.civ + rest.length) % ringPeriods := by
    rw [busy.writeIdx, civ, length, Nat.mod_add_mod, Nat.add_assoc,
      Nat.add_sub_cancel' (by omega : done ≤ s.mixer.queued)]
  rw [eq]
  refine ⟨rest, ⟨queue, place, length.symm⟩, by omega, by omega, rfl, rfl, ?_⟩
  have lvi := busy.lvi
  have writeIdx := busy.writeIdx
  simp only [System.lastWritten, ringPeriods, targetAhead] at *
  omega

/-- A card that has halted has played everything, and the pump finds it at its last descriptor. -/
theorem account_card (s : System) : s.account.card = s.card := by
  rw [account]
  dsimp only
  split
  · rfl
  · rfl

/-- The state right after a tick: what is queued is what has not been played. -/
def Ticked (s : System) : Prop :=
  (s.mixer.running = false ∧ s.Idle) ∨ (s.mixer.running = true ∧ s.Busy 0)

/-- The ring is topped up behind what is there, and its end moved on. -/
theorem Filled.refill (filled : s.Filled s.mixer.lastCiv rest) (few : rest.length ≤ targetAhead)
    (present : s.card.present = true) (on : s.card.running = true)
    (civ : s.card.civ = s.mixer.lastCiv) :
    s.refill.Busy 0 ∧ s.refill.mixer.running = s.mixer.running := by
  obtain ⟨more, topped, length, course⟩ :=
    filled.topUp few (Nat.le_add_left targetAhead rest.length)
  rw [System.refill]
  generalize System.topUp targetAhead s = t at topped course ⊢
  rw [← course.lastCiv] at topped
  have ready : Filled { t with card := t.card.ringSetLvi t.lastWritten } t.mixer.lastCiv more :=
    ⟨topped.queue, topped.writeIdx, topped.queued⟩
  refine ⟨ready.busy (course.present.trans present) ?_ ?_ (course.running.trans on)
    (course.civ.trans (civ.trans course.lastCiv.symm)) rfl, course.pumping⟩
  · have some : 0 < targetAhead := by decide
    omega
  · exact Nat.le_of_eq length

/-- After a tick the books are exact, whatever the card has played since the one before. -/
theorem pump_ticked (present : s.card.present = true) (booked : s.Booked) : s.pump.Ticked := by
  rw [pump, if_pos present]
  dsimp only
  rcases booked with ⟨stopped, idle⟩ | ⟨pumping, done, busy⟩
  · -- Nothing is playing: the pump starts the card, or leaves things as they are.
    rw [if_neg (by rw [stopped]; exact Bool.false_ne_true)]
    split
    · have started := coldStart_busy present idle.all
      exact .inr ⟨started.2, started.1⟩
    · exact .inl ⟨stopped, idle⟩
  rw [if_pos pumping]
  have card := s.account_card
  have there : s.account.card.present = true := by rw [card, present]
  cases on : s.card.running with
  | false =>
    -- The card has halted, so that it has played everything.
    have off : s.account.card.running = false := by rw [card, on]
    have heard : s.account.card.written = s.account.card.played := by
      rw [card, (busy.off on).2.2]
    rw [if_neg (by rw [off]; exact Bool.false_ne_true)]
    split
    · have started := coldStart_busy (s := s.account.halted s.mixer.sources.hasActivity) there heard
      exact .inr ⟨started.2, started.1⟩
    · exact .inl ⟨rfl, rfl, off, heard⟩
  | true =>
    obtain ⟨rest, filled, some_, few, civ, running, lvi⟩ := busy.account on
    have still : s.account.card.running = true := by rw [card, on]
    rw [if_pos still]
    split
    · obtain ⟨refilled, same⟩ := filled.refill few there still civ
      exact .inr ⟨same.trans (running.trans pumping), refilled⟩
    · -- Nothing new to play: the card plays what it has.
      exact .inr ⟨running.trans pumping, filled.busy there some_ few still civ lvi⟩

/-- A tick always ends with exact books: without a card nothing is ever written. -/
theorem Booked.tick (booked : s.Booked) : (s.step .tick).Ticked := by
  cases present : s.card.present with
  | true => exact pump_ticked present booked
  | false => ?_
  have same : s.step .tick = s := by
    rw [System.step, pump, if_neg (by rw [present]; exact Bool.false_ne_true)]
  rw [same]
  refine booked.imp_right fun ⟨_, _, busy⟩ => ?_
  rw [busy.present] at present
  cases present

theorem Ticked.booked (ticked : s.Ticked) : s.Booked :=
  ticked.imp_right fun ⟨running, busy⟩ => ⟨running, 0, busy⟩

/-- What one event preserves. -/
theorem Booked.step (booked : s.Booked) (event : Event) : (s.step event).Booked := by
  cases event with
  | consume =>
    rcases booked with ⟨stopped, idle⟩ | ⟨pumping, done, busy⟩
    · have still : s.card.consume = s.card := by rw [Card.consume, idle.off]; rfl
      refine .inl ⟨stopped, ?_⟩
      rw [System.step, still]
      exact idle
    · exact .inr ⟨pumping, busy.consume⟩
  | calls sources =>
    -- Only what is mixed next changes.
    rcases booked with ⟨stopped, idle⟩ | ⟨pumping, done, busy⟩
    · exact .inl ⟨stopped, idle.queued, idle.off, idle.all⟩
    · exact .inr ⟨pumping, done, busy.present, busy.some_queued, busy.few_queued, busy.lastCiv,
        busy.writeIdx, busy.lvi, busy.on, busy.off⟩
  | tick => exact booked.tick.booked

/-- What a run preserves. -/
theorem Booked.run (booked : s.Booked) (events : List Event) : (s.run events).Booked := by
  induction events generalizing s with
  | nil => exact booked
  | cons event events ih => exact ih (booked.step event)

theorem start_booked (sources : Sources) (present : Bool) (ring : Fin ringPeriods → Period)
    (civ lvi : Nat) : (start sources present ring civ lvi).Booked :=
  .inl ⟨rfl, rfl, rfl, rfl⟩

/-- What waits in the ring, in the order in which the card will play it. -/
theorem Booked.waiting (booked : s.Booked) :
    ∃ rest, s.card.written = s.card.played ++ rest
      ∧ (∀ i (within : i < rest.length),
        s.card.ring ⟨(s.card.civ + i) % ringPeriods, Nat.mod_lt _ (by decide)⟩ = rest[i])
      ∧ (Nat.iterate Card.consume rest.length s.card).played = s.card.written := by
  rcases booked with ⟨-, idle⟩ | ⟨-, done, busy⟩
  · exact ⟨[], by rw [idle.all, append_nil], nofun, idle.all.symm⟩
  cases on : s.card.running with
  | true =>
    obtain ⟨more, civ, rest, queue, length⟩ := busy.on on
    have few := busy.few_queued
    refine ⟨rest, queue.1, fun i within => queue.get within, queue.plays ?_ fun _ => ⟨on, ?_⟩⟩
    · simp only [ringPeriods, targetAhead] at *
      omega
    · rw [busy.lvi, civ, length]
      simp only [ringPeriods, targetAhead] at *
      omega
  | false =>
    have all := (busy.off on).2.2
    exact ⟨[], by rw [all, append_nil], nofun, all.symm⟩

/-- After a tick the pump has as many periods on its books as have been written and not played. -/
theorem Ticked.queued (ticked : s.Ticked) :
    s.mixer.queued + s.card.played.length = s.card.written.length := by
  rcases ticked with ⟨-, idle⟩ | ⟨-, busy⟩
  · rw [idle.queued, idle.all, Nat.zero_add]
  cases on : s.card.running with
  | true =>
    obtain ⟨-, -, rest, queue, length⟩ := busy.on on
    rw [queue.1, length_append, length]
    omega
  | false =>
    have none := (busy.off on).1
    have some_ := busy.some_queued
    omega

/-- Every period that the mixer writes is played once and in order. At any time the periods written
are those played and, behind them, those that wait unchanged in the ring from the current descriptor
on, all of which a card that goes on will play; and after every tick the pump's count is theirs. -/
theorem every_period_played_once (sources : Sources) (present : Bool)
    (ring : Fin ringPeriods → Period) (civ lvi : Nat) (events : List Event) :
    let now := (start sources present ring civ lvi).run events
    let next := now.step .tick
    (∃ rest, now.card.written = now.card.played ++ rest
      ∧ (∀ i (within : i < rest.length),
        now.card.ring ⟨(now.card.civ + i) % ringPeriods, Nat.mod_lt _ (by decide)⟩ = rest[i])
      ∧ (Nat.iterate Card.consume rest.length now.card).played = now.card.written)
    ∧ next.mixer.queued + next.card.played.length = next.card.written.length := by
  have booked := (start_booked sources present ring civ lvi).run events
  exact ⟨booked.waiting, booked.tick.queued⟩

end System

end NovaOs.Sound
