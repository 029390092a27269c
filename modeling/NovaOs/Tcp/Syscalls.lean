import NovaOs.Tcp.Steps

/-! The socket calls of `arch/x86/cpu/syscall.c`: handles, and the connections they stand for. -/

namespace NovaOs.Tcp

def maxOpenFiles : Nat := 8

instance : NeZero maxOpenFiles := ⟨by decide⟩

abbrev Handle := Fin maxOpenFiles

/-- What a handle is a handle of. -/
inductive OpenKind where
  | vfs
  | pipeRead
  | pipeWrite
  | socket
  | udpSocket
  deriving DecidableEq, Repr

/-- An entry of the table of handles. -/
structure OpenFile where
  inUse : Bool := false
  ownerPid : Int := 0
  kind : OpenKind := .vfs
  -- For a socket, the number of its connection.
  pipeId : Int := 0
  deriving DecidableEq, Repr

/-- What a process in the middle of a call has still to do, or waits for. -/
inductive Pending where
  -- A connection was given out and has no handle yet.
  | claim (connId : Int)
  -- The handle is gone, or none was free, and the connection has to be closed.
  | closing (connId : Int) (rc : Option Int)
  | accepting (connId : Int)
  | connecting (connId : Int)
  deriving DecidableEq, Repr

/-- The engine, the handles, and the calls that processes are in. -/
structure Sockets where
  engine : Engine := {}
  files : Handle → OpenFile := fun _ => {}
  pending : Int → Option Pending := fun _ => none
  -- For statements only: how often a slot was given out, and that number when a handle was opened.
  births : Slot → Nat := fun _ => 0
  openedAt : Handle → Nat := fun _ => 0

/-- The sections that no process asks for: packets, timers, and the segments they lead to. -/
def Event.external : Event → Bool
  | .packet _ _ _ | .timers _ | .pollSend _ | .sendSyn _ | .sendSynAck _ | .sendAck _ => true
  | _ => false

/-- What processes and the network do, one section at a time. -/
inductive Action where
  | socket (pid : Int)
  | claim (pid : Int)
  | close (pid : Int) (handle : Int)
  | finishClose (pid : Int)
  | bind (pid : Int) (handle : Int) (port : UInt16)
  | listen (pid : Int) (handle : Int)
  | accept (pid : Int) (handle : Int)
  | acceptTurn (pid : Int)
  | connect (pid : Int) (handle : Int) (destIp : UInt32) (destPort : UInt16)
      (isnTicks rtoTicks : UInt32)
  | connectTurn (pid : Int)
  | connectTimeout (pid : Int)
  | send (pid : Int) (handle : Int) (data : Bytes)
  | recv (pid : Int) (handle : Int) (maxLen : Nat)
  -- A handle of another kind.
  | openOther (pid : Int) (kind : OpenKind) (pipeId : Int)
  | network (ev : Event)
  deriving DecidableEq, Repr

namespace Sockets

variable (s : Sockets)

/-- One section of the engine; a slot that comes into use is given out once more. -/
def advance (ev : Event) : Out × Sockets :=
  match s.engine.step ev with
  | (out, e) =>
    (out, { s with
      engine := e
      births := fun i =>
        if !(s.engine.conns i).inUse && (e.conns i).inUse then s.births i + 1 else s.births i })

/-- The entry a process may use under a number. -/
def lookup (pid handle : Int) : Option Handle :=
  if range : 0 ≤ handle ∧ handle < maxOpenFiles then
    let h : Handle := ⟨handle.toNat, by omega⟩
    if (s.files h).inUse ∧ (s.files h).ownerPid = pid then some h else none
  else none

/-- The connection of a process's socket. -/
def lookupSocketConnId (pid handle : Int) : Option Int :=
  match s.lookup pid handle with
  | some h => if (s.files h).kind = .socket then some (s.files h).pipeId else none
  | none => none

/-- The first entry that is not in use. -/
def freeHandle : Option Handle := Table.first? (fun f => !f.inUse) s.files

def setPending (pid : Int) (next : Option Pending) : Sockets :=
  { s with pending := Function.update s.pending pid next }

def setFile (h : Handle) (f : OpenFile) : Sockets :=
  { s with files := Function.update s.files h f }

/-- Opens a handle for a connection. -/
def hand (h : Handle) (f : OpenFile) : Sockets :=
  { s.setFile h f with
    openedAt := Function.update s.openedAt h ((slotOf f.pipeId).elim 0 s.births) }

/-- A call on a socket that is one section of the engine. -/
def call (pid handle : Int) (section' : Int → Event) : Option Int × Sockets :=
  if (s.pending pid).isSome then (none, s)
  else match s.lookupSocketConnId pid handle with
    | none => (some (-1), s)
    | some connId => ((s.advance (section' connId)).1.rc, (s.advance (section' connId)).2)

/-- One section; a number is what a call returns with. -/
def step : Action → Option Int × Sockets
  | .socket pid =>
    if (s.pending pid).isSome then (none, s)
    else match s.advance .socket with
      | (out, s) =>
        let connId := out.rc.getD (-1)
        if connId < 0 then (some (-1), s) else (none, s.setPending pid (some (.claim connId)))
  | .claim pid =>
    match s.pending pid with
    | some (.claim connId) =>
      match s.freeHandle with
      | none => (none, s.setPending pid (some (.closing connId (some (-1)))))
      | some h =>
        let entry := { inUse := true, ownerPid := pid, kind := .socket, pipeId := connId }
        (some h.val, (s.hand h entry).setPending pid none)
    | _ => (none, s)
  | .close pid handle =>
    if (s.pending pid).isSome then (none, s)
    else match s.lookup pid handle with
      | none => (none, s)
      | some h =>
        let entry := s.files h
        let s := s.setFile h { entry with inUse := false }
        if entry.kind = .socket then (none, s.setPending pid (some (.closing entry.pipeId none)))
        else (none, s)
  | .finishClose pid =>
    match s.pending pid with
    | some (.closing connId rc) => (rc, ((s.advance (.close connId)).2).setPending pid none)
    | _ => (none, s)
  | .bind pid handle port => s.call pid handle fun connId => .bind connId port
  | .listen pid handle => s.call pid handle .listen
  | .send pid handle data => s.call pid handle fun connId => .send connId data
  | .recv pid handle maxLen => s.call pid handle fun connId => .recv connId maxLen
  | .accept pid handle =>
    if (s.pending pid).isSome then (none, s)
    else match s.lookupSocketConnId pid handle with
      | none => (some (-1), s)
      | some connId => (none, s.setPending pid (some (.accepting connId)))
  | .acceptTurn pid =>
    match s.pending pid with
    | some (.accepting connId) =>
      match s.advance (.accept connId) with
      | (out, s) =>
        match out.rc with
        | none => (none, s)
        | some newConnId =>
          if newConnId < 0 then (some (-1), s.setPending pid none)
          else (none, s.setPending pid (some (.claim newConnId)))
    | _ => (none, s)
  | .connect pid handle destIp destPort isnTicks rtoTicks =>
    if (s.pending pid).isSome then (none, s)
    else match s.lookupSocketConnId pid handle with
      | none => (some (-1), s)
      | some connId =>
        match s.advance (.connectBegin connId destIp destPort isnTicks rtoTicks) with
        | (out, s) =>
          match out.rc with
          | some rc => (some rc, s)
          | none => (none, s.setPending pid (some (.connecting connId)))
  | .connectTurn pid =>
    match s.pending pid with
    | some (.connecting connId) =>
      match (slotOf connId).bind s.engine.connectTurn with
      | some rc => (some rc, s.setPending pid none)
      | none => (none, s)
    | _ => (none, s)
  | .connectTimeout pid =>
    match s.pending pid with
    | some (.connecting connId) =>
      match slotOf connId with
      | some idx => (some (-1), ((s.advance (.connectTimeout idx)).2).setPending pid none)
      | none => (none, s)
    | _ => (none, s)
  | .openOther pid kind pipeId =>
    if (s.pending pid).isSome || kind == .socket then (none, s)
    else match s.freeHandle with
      | none => (some (-1), s)
      | some h => (some h.val, s.setFile h { inUse := true, ownerPid := pid, kind, pipeId })
  | .network ev => if ev.external then (none, (s.advance ev).2) else (none, s)

/-- A run of sections, for what becomes of the state. -/
def run (s : Sockets) : List Action → Sockets
  | [] => s
  | a :: rest => run (s.step a).2 rest

section Lookup

variable {s : Sockets} {pid handle : Int} {h : Handle}

theorem lookup_some (found : s.lookup pid handle = some h) :
    (s.files h).inUse ∧ (s.files h).ownerPid = pid := by
  simp only [lookup] at found
  split at found
  · split at found
    · rename_i usable
      cases found
      exact usable
    · cases found
  · cases found

theorem lookupSocketConnId_some {connId : Int}
    (found : s.lookupSocketConnId pid handle = some connId) :
    ∃ h, s.files h = { inUse := true, ownerPid := pid, kind := .socket, pipeId := connId } := by
  simp only [lookupSocketConnId] at found
  split at found
  · rename_i h entry
    obtain ⟨live, owner⟩ := lookup_some entry
    split at found
    · rename_i kind
      refine ⟨h, ?_⟩
      generalize s.files h = f at live owner kind found
      cases f
      simp_all
    · cases found
  · cases found

end Lookup

end Sockets

/-- The process a section is part of a call of. -/
def Action.caller : Action → Option Int
  | .socket pid | .claim pid | .close pid _ | .finishClose pid | .bind pid _ _ | .listen pid _
  | .accept pid _ | .acceptTurn pid | .connect pid _ _ _ _ _ | .connectTurn pid
  | .connectTimeout pid | .send pid _ _ | .recv pid _ _ | .openOther pid _ _ => some pid
  | .network _ => none

/-- A section on a connection that a call consists of or begins with. -/
def Event.Uses (connId : Int) : Event → Prop
  | .bind id _ | .listen id | .send id _ | .recv id _ | .connectBegin id _ _ _ _ => id = connId
  | _ => False

namespace Sockets

/-- A process has a handle for a connection. -/
def Has (s : Sockets) (pid connId : Int) : Prop :=
  ∃ h, s.files h = { inUse := true, ownerPid := pid, kind := .socket, pipeId := connId }

/-- What one section can make of the engine, the handles and the calls. -/
inductive Move (s : Sockets) : Action → Sockets → Prop
  | idle (a : Action) : Move s a s
  | used {a : Action} {pid connId : Int} {ev : Event} (caller : a.caller = some pid)
      (entry : s.Has pid connId) (uses : ev.Uses connId) : Move s a (s.advance ev).2
  | refused (pid : Int) : Move s (.socket pid) (s.advance .socket).2
  | opened {pid connId : Int} (free : s.pending pid = none)
      (rc : (s.advance .socket).1.rc.getD (-1) = connId) (taken : ¬ connId < 0) :
      Move s (.socket pid) ((s.advance .socket).2.setPending pid (some (.claim connId)))
  | crowded {pid connId : Int} (pending : s.pending pid = some (.claim connId)) :
      Move s (.claim pid) (s.setPending pid (some (.closing connId (some (-1)))))
  | claimed {pid connId : Int} {h : Handle} (pending : s.pending pid = some (.claim connId))
      (unused : (s.files h).inUse = false) :
      Move s (.claim pid) ((s.hand h ⟨true, pid, .socket, connId⟩).setPending pid none)
  | closed {pid handle : Int} {h : Handle} (free : s.pending pid = none)
      (mine : (s.files h).inUse ∧ (s.files h).ownerPid = pid) (kind : (s.files h).kind ≠ .socket) :
      Move s (.close pid handle) (s.setFile h { s.files h with inUse := false })
  | closing {pid handle : Int} {h : Handle} (free : s.pending pid = none)
      (mine : (s.files h).inUse ∧ (s.files h).ownerPid = pid) (kind : (s.files h).kind = .socket) :
      Move s (.close pid handle) ((s.setFile h { s.files h with inUse := false }).setPending pid
        (some (.closing (s.files h).pipeId none)))
  | gone {pid connId : Int} {rc : Option Int}
      (pending : s.pending pid = some (.closing connId rc)) :
      Move s (.finishClose pid) ((s.advance (.close connId)).2.setPending pid none)
  | accepting {pid handle connId : Int} (free : s.pending pid = none) (entry : s.Has pid connId) :
      Move s (.accept pid handle) (s.setPending pid (some (.accepting connId)))
  | polled {pid connId : Int} (pending : s.pending pid = some (.accepting connId)) :
      Move s (.acceptTurn pid) (s.advance (.accept connId)).2
  | failed {pid connId : Int} (pending : s.pending pid = some (.accepting connId)) :
      Move s (.acceptTurn pid) ((s.advance (.accept connId)).2.setPending pid none)
  | accepted {pid connId newConnId : Int} (pending : s.pending pid = some (.accepting connId))
      (rc : (s.advance (.accept connId)).1.rc = some newConnId) (taken : ¬ newConnId < 0) :
      Move s (.acceptTurn pid)
        ((s.advance (.accept connId)).2.setPending pid (some (.claim newConnId)))
  | connecting {pid handle connId : Int} {ip isn rto : UInt32} {port : UInt16}
      (free : s.pending pid = none) (entry : s.Has pid connId) :
      Move s (.connect pid handle ip port isn rto)
        ((s.advance (.connectBegin connId ip port isn rto)).2.setPending pid
          (some (.connecting connId)))
  | connected {pid connId : Int} (pending : s.pending pid = some (.connecting connId)) :
      Move s (.connectTurn pid) (s.setPending pid none)
  | timedOut {pid connId : Int} {idx : Slot} (pending : s.pending pid = some (.connecting connId))
      (slot : slotOf connId = some idx) :
      Move s (.connectTimeout pid) ((s.advance (.connectTimeout idx)).2.setPending pid none)
  | filed {pid pipeId : Int} {kind : OpenKind} {h : Handle} (other : kind ≠ .socket)
      (unused : (s.files h).inUse = false) :
      Move s (.openOther pid kind pipeId)
        (s.setFile h { inUse := true, ownerPid := pid, kind, pipeId })
  | network {ev : Event} (outside : ev.external) : Move s (.network ev) (s.advance ev).2

section Inversion

variable {s : Sockets}

theorem call_move {a : Action} {pid handle : Int} {section' : Int → Event}
    (caller : a.caller = some pid) (uses : ∀ id, (section' id).Uses id) :
    Move s a (s.call pid handle section').2 := by
  unfold call
  split
  · exact .idle a
  split
  · exact .idle a
  · rename_i connId found
    exact .used caller (lookupSocketConnId_some found) (uses connId)

theorem freeHandle_some {h : Handle} (found : s.freeHandle = some h) :
    (s.files h).inUse = false := by
  simpa using Table.first?_eq_some found

/-- A process that is in no call may start one. -/
theorem free_of {pid : Int} (idle : ¬ (s.pending pid).isSome) : s.pending pid = none :=
  Option.not_isSome_iff_eq_none.mp idle

/-- Every section is one of the moves listed, or none. -/
theorem step_move (s : Sockets) (a : Action) : Move s a (s.step a).2 := by
  cases a with
  | bind | listen | send | recv => exact call_move rfl fun _ => rfl
  | socket pid =>
    simp only [step]
    split
    · exact .idle _
    rename_i idle
    split
    · exact .refused pid
    · exact .opened (free_of idle) rfl (by assumption)
  | claim =>
    simp only [step]
    split
    · rename_i connId pending
      split
      · exact .crowded pending
      · rename_i found
        exact .claimed pending (freeHandle_some found)
    · exact .idle _
  | close =>
    simp only [step]
    split
    · exact .idle _
    rename_i idle
    split
    · exact .idle _
    · rename_i found
      split
      · exact .closing (free_of idle) (lookup_some found) (by assumption)
      · exact .closed (free_of idle) (lookup_some found) (by assumption)
  | finishClose =>
    simp only [step]
    split
    · exact .gone (by assumption)
    · exact .idle _
  | accept =>
    simp only [step]
    split
    · exact .idle _
    rename_i idle
    split
    · exact .idle _
    · rename_i found
      exact .accepting (free_of idle) (lookupSocketConnId_some found)
  | acceptTurn =>
    simp only [step]
    split
    · rename_i connId pending
      split
      · exact .polled pending
      · rename_i rc
        split
        · exact .failed pending
        · exact .accepted pending rc (by assumption)
    · exact .idle _
  | connect pid handle ip port isn rto =>
    simp only [step]
    split
    · exact .idle _
    rename_i idle
    split
    · exact .idle _
    rename_i connId found
    have entry := lookupSocketConnId_some found
    split
    · have uses : (Event.connectBegin connId ip port isn rto).Uses connId := rfl
      exact .used rfl entry uses
    · exact .connecting (free_of idle) entry
  | connectTurn =>
    simp only [step]
    split
    · rename_i pending
      split
      · exact .connected pending
      · exact .idle _
    · exact .idle _
  | connectTimeout =>
    simp only [step]
    split
    · rename_i pending
      split
      · rename_i idx slot
        exact .timedOut pending slot
      · exact .idle _
    · exact .idle _
  | openOther =>
    simp only [step]
    split
    · exact .idle _
    rename_i other
    simp only [Bool.or_eq_true, beq_iff_eq, not_or] at other
    split
    · exact .idle _
    · rename_i found
      exact .filed other.2 (freeHandle_some found)
  | network =>
    simp only [step]
    split
    · exact .network (by assumption)
    · exact .idle _

end Inversion

end Sockets

end NovaOs.Tcp
