import NovaOs.Lib.Bytes
import NovaOs.Lib.Fifo

/-! The message table of `kernel/rust/msg.rs`, one function at a time. -/

namespace NovaOs.Ipc

-- The limits of the table.
def maxPayload : Nat := 1024
def queueDepth : Nat := 16
def maxPerSender : Nat := 8
def maxInboxes : Nat := 32
def maxServices : Nat := 32
def maxNamesPerProc : Nat := 4
def maxAllow : Nat := 8
def nameMax : Nat := 31
def tickHz : UInt32 := 100

-- The policies an inbox may have, the last of them the highest number there is.
def acceptAny : UInt32 := 0
def acceptSameUid : UInt32 := 1
def acceptAllowlist : UInt32 := 2

def recvPeek : UInt32 := 1
def recvMatchTag : UInt32 := 2

def svcRegister : UInt32 := 1
def svcUnregister : UInt32 := 2
def svcLookup : UInt32 := 3

/-- The errors the table reports. -/
inductive Errno where
  | eperm | enoent | esrch | e2big | ebadf | eagain | eacces | eexist | einval | enospc
  deriving DecidableEq, Repr

/-- The number each error has outside the kernel. -/
def Errno.code : Errno → Int
  | eperm => 1
  | enoent => 2
  | esrch => 3
  | e2big => 7
  | ebadf => 9
  | eagain => 11
  | eacces => 13
  | eexist => 17
  | einval => 22
  | enospc => 28

abbrev Pid := Int

/-- What the rest of the kernel answers during one call. A call may ask about a process twice,
and the process may be gone the second time. -/
structure Hal where
  pidIsLive : Nat → Pid → Bool
  uidOf : Pid → Option UInt32
  ticks : UInt32

/-- One place of a queue. -/
structure Slot where
  used : Bool := false
  sender : Pid := 0
  senderUid : UInt32 := 0
  mtype : UInt32 := 0
  tag : UInt32 := 0
  len : UInt32 := 0
  tick : UInt32 := 0
  -- The place of the message in the order of arrival.
  seq : UInt64 := 0
  data : Bytes := List.replicate maxPayload 0

structure Inbox where
  inUse : Bool := false
  pid : Pid := 0
  policy : UInt32 := 0
  -- Zero marks a free entry.
  allow : Fin maxAllow → Pid := fun _ => 0
  count : UInt32 := 0
  nextSeq : UInt64 := 0
  delivered : UInt32 := 0
  refused : UInt32 := 0
  slots : Fin queueDepth → Slot := fun _ => {}

/-- A name a process can be reached under. -/
structure Service where
  inUse : Bool := false
  pid : Pid := 0
  name : Bytes := []

structure Msg where
  inboxes : Fin maxInboxes → Inbox
  services : Fin maxServices → Service

/-- Where a message is sent. -/
inductive Dest where
  | pid (p : Pid)
  | name (n : Bytes)

/-- What is reported about the message a receive found. -/
structure RecvInfo where
  sender : Pid := 0
  senderUid : UInt32 := 0
  mtype : UInt32 := 0
  tag : UInt32 := 0
  len : UInt32 := 0
  tick : UInt32 := 0
  pending : UInt32 := 0
  deriving DecidableEq, Repr

/-- A process's view of its own inbox. -/
structure Stat where
  queued : UInt32
  capacity : UInt32
  maxPayload : UInt32
  policy : UInt32
  delivered : UInt32
  refused : UInt32
  nextLen : UInt32
  nextType : UInt32
  nextSender : Pid
  nowTick : UInt32
  tickHz : UInt32
  deriving DecidableEq, Repr

/-- Letters, digits, dots, underscores and dashes. -/
def validByte (c : UInt8) : Bool :=
  (0x30 ≤ c && c ≤ 0x39) || (0x41 ≤ c && c ≤ 0x5A) || (0x61 ≤ c && c ≤ 0x7A)
    || c == 0x2E || c == 0x5F || c == 0x2D

def validName (n : Bytes) : Bool :=
  !n.isEmpty && decide (n.length ≤ nameMax) && n.all validByte

namespace Msg

def new : Msg := ⟨fun _ => {}, fun _ => {}⟩

variable (m : Msg)

def setInbox (i : Fin maxInboxes) (b : Inbox) : Msg :=
  { m with inboxes := Function.update m.inboxes i b }

def setService (i : Fin maxServices) (s : Service) : Msg :=
  { m with services := Function.update m.services i s }

def findInbox (pid : Pid) : Option (Fin maxInboxes) :=
  if pid ≤ 0 then none else Table.first? (fun b => b.inUse && b.pid == pid) m.inboxes

def findService (name : Bytes) : Option (Fin maxServices) :=
  Table.first? (fun s => s.inUse && s.name == name) m.services

def namesOf (pid : Pid) : Nat :=
  Table.count (fun s => s.inUse && s.pid == pid) m.services

/-- `open`: the queue's depth and the longest message, or why there is no inbox. -/
def openInbox (pid : Pid) (policy flags : UInt32) : Except Errno (UInt32 × UInt32) × Msg :=
  if flags ≠ 0 ∨ policy > acceptAllowlist ∨ pid ≤ 0 then (.error .einval, m)
  else if (m.findInbox pid).isSome then (.error .eexist, m)
  else match Table.first? (fun b => !b.inUse) m.inboxes with
    | none => (.error .enospc, m)
    | some i =>
      (.ok (UInt32.ofNat queueDepth, UInt32.ofNat maxPayload),
        m.setInbox i { inUse := true, pid := pid, policy := policy })

/-- An allowlist without one process. -/
def strike (allow : Fin maxAllow → Pid) (pid : Pid) : Fin maxAllow → Pid :=
  fun k => if allow k = pid then 0 else allow k

def dropProcess (pid : Pid) : Msg where
  services :=
    fun k => if (m.services k).inUse && (m.services k).pid == pid then {} else m.services k
  inboxes := fun i =>
    let b := m.inboxes i
    if b.inUse && b.pid == pid then {}
    else if b.inUse then { b with allow := strike b.allow pid }
    else b

def close (pid : Pid) : Except Errno Unit × Msg :=
  if (m.findInbox pid).isNone then (.error .ebadf, m) else (.ok (), m.dropProcess pid)

def processExit (pid : Pid) : Msg :=
  m.dropProcess pid

/-- The first part of `send`: the process a destination stands for. A name whose owner is gone is
given up on the way. -/
def resolve (h : Hal) : Dest → Except Errno Pid × Msg
  | .pid p => if p ≤ 0 then (.error .einval, m) else (.ok p, m)
  | .name n =>
    if validName n = false then (.error .einval, m)
    else match m.findService n with
      | none => (.error .enoent, m)
      | some k =>
        let owner := (m.services k).pid
        if h.pidIsLive 0 owner = false then (.error .enoent, m.setService k {})
        else (.ok owner, m)

end Msg

namespace Inbox

variable (b : Inbox)

def refuse : Inbox := { b with refused := b.refused + 1 }

/-- Whether the policy of an inbox lets a sender in. -/
def admits (h : Hal) (receiver sender : Pid) (senderUid : UInt32) : Except Errno Unit :=
  if b.policy = acceptSameUid then
    match h.uidOf receiver with
    | none => .error .esrch
    | some receiverUid =>
      if senderUid ≠ receiverUid ∧ senderUid ≠ 0 then .error .eacces else .ok ()
  else if b.policy = acceptAllowlist then
    if (List.finRange maxAllow).any (fun k => b.allow k == sender) then .ok () else .error .eacces
  else .ok ()

/-- The messages one sender has in the queue. -/
def heldBy (sender : Pid) : Nat :=
  Table.count (fun s => s.used && s.sender == sender) b.slots

/-- The place for the next message of a sender, unless the queue or the sender's share is full. -/
def place (sender : Pid) : Option (Fin queueDepth) :=
  match Table.first? (fun s => !s.used) b.slots with
  | none => none
  | some k => if b.heldBy sender < maxPerSender then some k else none

/-- The last part of `send`: the message is put in its place and stamped. -/
def enqueue (k : Fin queueDepth) (sender : Pid) (senderUid mtype tag tick : UInt32) (data : Bytes) :
    Inbox :=
  { b with
    slots := Function.update b.slots k
      { used := true, sender := sender, senderUid := senderUid, mtype := mtype, tag := tag
        len := UInt32.ofNat data.length, tick := tick, seq := b.nextSeq
        data := data ++ (b.slots k).data.drop data.length }
    nextSeq := b.nextSeq + 1
    count := b.count + 1 }

/-- The oldest of the queued messages that pass a test. -/
def oldest (wanted : Slot → Bool) : Option (Fin queueDepth) :=
  Table.lowest? (fun s => s.seq.toNat) (fun s => s.used && wanted s) b.slots

/-- Takes a message out of its place. -/
def consume (k : Fin queueDepth) : Inbox :=
  { b with
    slots := Function.update b.slots k { b.slots k with used := false }
    count := b.count - 1
    delivered := b.delivered + 1 }

end Inbox

/-- What a receive asks for: zero stands for any sender and any type, and the tag only counts
where the flags say so. -/
def wants (flags : UInt32) (matchSender : Pid) (matchType matchTag : UInt32) (sender : Pid)
    (mtype tag : UInt32) : Bool :=
  !(decide (matchSender ≠ 0) && decide (sender ≠ matchSender))
    && !(decide (matchType ≠ 0) && decide (mtype ≠ matchType))
    && !(decide (flags &&& recvMatchTag ≠ 0) && decide (tag ≠ matchTag))

def Slot.info (s : Slot) (pending : UInt32) : RecvInfo where
  sender := s.sender
  senderUid := s.senderUid
  mtype := s.mtype
  tag := s.tag
  len := s.len
  tick := s.tick
  pending := pending

/-- What a receive leaves with its caller. -/
structure Received where
  result : Except Errno Unit
  out : Bytes
  info : RecvInfo

namespace Msg

variable (m : Msg)

def send (h : Hal) (sender : Pid) (senderUid : UInt32) (dest : Dest) (mtype tag flags : UInt32)
    (data : Bytes) : Except Errno Unit × Msg :=
  if flags ≠ 0 ∨ mtype = 0 then (.error .einval, m)
  else if maxPayload < data.length then (.error .e2big, m)
  else match m.resolve h dest with
    | (.error e, m) => (.error e, m)
    | (.ok receiver, m) =>
      if h.pidIsLive 1 receiver = false then (.error .esrch, m)
      else match m.findInbox receiver with
        | none => (.error .enoent, m)
        | some i =>
          let b := m.inboxes i
          match b.admits h receiver sender senderUid with
          | .error .eacces => (.error .eacces, m.setInbox i b.refuse)
          | .error e => (.error e, m)
          | .ok () =>
            match b.place sender with
            | none => (.error .eagain, m.setInbox i b.refuse)
            | some k =>
              (.ok (), m.setInbox i (b.enqueue k sender senderUid mtype tag h.ticks data))

def recv (pid : Pid) (flags : UInt32) (matchSender : Pid) (matchType matchTag : UInt32)
    (out : Bytes) (info : RecvInfo) : Received × Msg :=
  if flags &&& ~~~(recvPeek ||| recvMatchTag) ≠ 0 then (⟨.error .einval, out, info⟩, m)
  else match m.findInbox pid with
    | none => (⟨.error .ebadf, out, info⟩, m)
    | some i =>
      let b := m.inboxes i
      let wanted := fun s : Slot =>
        wants flags matchSender matchType matchTag s.sender s.mtype s.tag
      match b.oldest wanted with
      | none => (⟨.error .eagain, out, info⟩, m)
      | some k =>
        let s := b.slots k
        -- The message is described even where the buffer turns out too short for it.
        if out.length < s.len.toNat then (⟨.error .e2big, out, s.info b.count⟩, m)
        else
          let out := s.data.take s.len.toNat ++ out.drop s.len.toNat
          if flags &&& recvPeek = 0 then
            (⟨.ok (), out, s.info (b.consume k).count⟩, m.setInbox i (b.consume k))
          else (⟨.ok (), out, s.info b.count⟩, m)

def register (h : Hal) (pid : Pid) (name : Bytes) : Except Errno Pid × Msg :=
  if (m.findInbox pid).isNone then (.error .ebadf, m)
  else match m.findService name with
    | some k =>
      let owner := (m.services k).pid
      if owner = pid then (.ok 0, m)
      else if h.pidIsLive 0 owner then (.error .eexist, m)
      -- The owner is gone without a trace: the name changes hands.
      else if maxNamesPerProc ≤ m.namesOf pid then (.error .enospc, m)
      else (.ok 0, m.setService k { m.services k with pid := pid })
    | none =>
      if maxNamesPerProc ≤ m.namesOf pid then (.error .enospc, m)
      else match Table.first? (fun s => !s.inUse) m.services with
        | none => (.error .enospc, m)
        | some k => (.ok 0, m.setService k { inUse := true, pid := pid, name := name })

def unregister (pid : Pid) (name : Bytes) : Except Errno Pid × Msg :=
  match m.findService name with
  | none => (.error .enoent, m)
  | some k =>
    if (m.services k).pid ≠ pid then (.error .eperm, m) else (.ok 0, m.setService k {})

def lookup (h : Hal) (name : Bytes) : Except Errno Pid × Msg :=
  match m.findService name with
  | none => (.error .enoent, m)
  | some k =>
    let owner := (m.services k).pid
    if h.pidIsLive 0 owner then (.ok owner, m) else (.error .enoent, m.setService k {})

def service (h : Hal) (pid : Pid) (op : UInt32) (name : Bytes) : Except Errno Pid × Msg :=
  if validName name = false then (.error .einval, m)
  else if op = svcRegister then m.register h pid name
  else if op = svcUnregister then m.unregister pid name
  else if op = svcLookup then m.lookup h name
  else (.error .einval, m)

def stat (h : Hal) (pid : Pid) : Except Errno Stat :=
  match m.findInbox pid with
  | none => .error .ebadf
  | some i =>
    let b := m.inboxes i
    -- With nothing queued the three fields of the next message stay zero.
    let next : RecvInfo := match b.oldest fun _ => true with
      | none => {}
      | some k => (b.slots k).info b.count
    .ok { queued := b.count, capacity := UInt32.ofNat queueDepth
          maxPayload := UInt32.ofNat maxPayload, policy := b.policy, delivered := b.delivered
          refused := b.refused, nextLen := next.len, nextType := next.mtype
          nextSender := next.sender, nowTick := h.ticks, tickHz := tickHz }

def allow (m : Msg) (pid target : Pid) (add : Bool) : Except Errno Unit × Msg :=
  match m.findInbox pid with
  | none => (.error .ebadf, m)
  | some i =>
    let b := m.inboxes i
    if target ≤ 0 then (.error .einval, m)
    else if add then
      if (List.finRange maxAllow).any (fun k => b.allow k == target) then (.ok (), m)
      else match Table.first? (fun a => a == 0) b.allow with
        | none => (.error .enospc, m)
        | some k => (.ok (), m.setInbox i { b with allow := Function.update b.allow k target })
    else (.ok (), m.setInbox i { b with allow := strike b.allow target })

def setPolicy (pid : Pid) (policy : UInt32) : Except Errno Unit × Msg :=
  match m.findInbox pid with
  | none => (.error .ebadf, m)
  | some i =>
    if policy > acceptAllowlist then (.error .einval, m)
    else (.ok (), m.setInbox i { m.inboxes i with policy := policy })

end Msg

/-- A call as it reaches the table, with what the rest of the kernel answers meanwhile. -/
inductive Call where
  | opening (pid : Pid) (policy flags : UInt32)
  | close (pid : Pid)
  | exit (pid : Pid)
  | send (h : Hal) (sender : Pid) (senderUid : UInt32) (dest : Dest) (mtype tag flags : UInt32)
      (data : Bytes)
  | recv (pid : Pid) (flags : UInt32) (matchSender : Pid) (matchType matchTag : UInt32)
      (out : Bytes) (info : RecvInfo)
  | service (h : Hal) (pid : Pid) (op : UInt32) (name : Bytes)
  | stat (h : Hal) (pid : Pid)
  | allow (pid target : Pid) (add : Bool)
  | setPolicy (pid : Pid) (policy : UInt32)

/-- What a caller gets back. -/
inductive Reply where
  | done (result : Except Errno Unit)
  | opened (result : Except Errno (UInt32 × UInt32))
  | received (reply : Received)
  | owner (result : Except Errno Pid)
  | stat (result : Except Errno Stat)

namespace Msg

def step (m : Msg) : Call → Reply × Msg
  | .opening pid policy flags =>
    let (result, m) := m.openInbox pid policy flags
    (.opened result, m)
  | .close pid =>
    let (result, m) := m.close pid
    (.done result, m)
  | .exit pid => (.done (.ok ()), m.processExit pid)
  | .send h sender senderUid dest mtype tag flags data =>
    let (result, m) := m.send h sender senderUid dest mtype tag flags data
    (.done result, m)
  | .recv pid flags matchSender matchType matchTag out info =>
    let (reply, m) := m.recv pid flags matchSender matchType matchTag out info
    (.received reply, m)
  | .service h pid op name =>
    let (result, m) := m.service h pid op name
    (.owner result, m)
  | .stat h pid => (.stat (m.stat h pid), m)
  | .allow pid target add =>
    let (result, m) := m.allow pid target add
    (.done result, m)
  | .setPolicy pid policy =>
    let (result, m) := m.setPolicy pid policy
    (.done result, m)

def run (m : Msg) (calls : List Call) : Msg :=
  calls.foldl (fun m call => (m.step call).2) m

end Msg

end NovaOs.Ipc
