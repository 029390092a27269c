import NovaOs.Ipc.Balance

/-! What an inbox is for: a queue of the messages it took in, read selectively. -/

namespace NovaOs.Ipc

open Function Inbox List

/-- Whether a destination stands for a process, given who owns which name. -/
def Dest.Reaches (owner : Bytes → Option Pid) : Dest → Pid → Prop
  | .pid p, receiver => receiver = p
  | .name n, receiver => owner n = some receiver

/-- The inbox of each process that has one. -/
abbrev Mail := Pid → Option (Fifo Post)

/-- What a receive reports about a message. -/
def Post.info (p : Post) (pending : Nat) : RecvInfo where
  sender := p.sender
  senderUid := p.senderUid
  mtype := p.mtype
  tag := p.tag
  len := UInt32.ofNat p.data.length
  tick := p.tick
  pending := UInt32.ofNat pending

/-- Whether a message is one that a receive asks for. -/
def Post.wanted (flags : UInt32) (matchSender : Pid) (matchType matchTag : UInt32) (p : Post) :
    Bool :=
  wants flags matchSender matchType matchTag p.sender p.mtype p.tag

namespace Mail

/-- A receive hands out the oldest message asked for, whole, and takes it out of the queue unless
it only looks. -/
def recv (mail : Mail) (pid : Pid) (flags : UInt32) (matchSender : Pid)
    (matchType matchTag : UInt32) (out : Bytes) (info : RecvInfo) : Received × Mail :=
  if flags &&& ~~~(recvPeek ||| recvMatchTag) ≠ 0 then (⟨.error .einval, out, info⟩, mail)
  else match mail pid with
    | none => (⟨.error .ebadf, out, info⟩, mail)
    | some box =>
      match box.oldest (Post.wanted flags matchSender matchType matchTag) with
      | none => (⟨.error .eagain, out, info⟩, mail)
      | some p =>
        if out.length < p.data.length then
          (⟨.error .e2big, out, p.info box.waiting.length⟩, mail)
        else if flags &&& recvPeek = 0 then
          let rest := box.take (Post.wanted flags matchSender matchType matchTag)
          (⟨.ok (), p.data ++ out.drop p.data.length, p.info rest.waiting.length⟩,
            Function.update mail pid (some rest))
        else (⟨.ok (), p.data ++ out.drop p.data.length, p.info box.waiting.length⟩, mail)

/-- What a process may be told about its inbox: how much is queued, and of the next message what a
receive that asks for nothing in particular would report. -/
def Reports (mail : Mail) (pid : Pid) : Except Errno Stat → Prop
  | .error e => mail pid = none ∧ e = .ebadf
  | .ok stat => ∃ box, mail pid = some box ∧ stat.queued = UInt32.ofNat box.waiting.length ∧
    ∀ out, stat.nextLen = (mail.recv pid 0 0 0 0 out {}).1.info.len ∧
      stat.nextType = (mail.recv pid 0 0 0 0 out {}).1.info.mtype ∧
      stat.nextSender = (mail.recv pid 0 0 0 0 out {}).1.info.sender

/-- The calls and replies of the queues, given who owns which name. -/
inductive Step (owner : Bytes → Option Pid) (mail : Mail) : Call → Reply → Mail → Prop where
  | opened (pid : Pid) (policy flags : UInt32) (sizes : UInt32 × UInt32)
      (absent : mail pid = none) :
      Step owner mail (.opening pid policy flags) (.opened (.ok sizes))
        (Function.update mail pid (some Fifo.empty))
  | notOpened (pid : Pid) (policy flags : UInt32) (e : Errno) :
      Step owner mail (.opening pid policy flags) (.opened (.error e)) mail
  | closed (pid : Pid) (box : Fifo Post) (present : mail pid = some box) :
      Step owner mail (.close pid) (.done (.ok ())) (Function.update mail pid none)
  | notClosed (pid : Pid) (absent : mail pid = none) :
      Step owner mail (.close pid) (.done (.error .ebadf)) mail
  | exited (pid : Pid) :
      Step owner mail (.exit pid) (.done (.ok ())) (Function.update mail pid none)
  | accepted (h : Hal) (sender : Pid) (senderUid : UInt32) (dest : Dest) (mtype tag flags : UInt32)
      (data : Bytes) (receiver : Pid) (box : Fifo Post)
      (addressed : dest.Reaches owner receiver)
      (present : mail receiver = some box) :
      Step owner mail (.send h sender senderUid dest mtype tag flags data) (.done (.ok ()))
        (Function.update mail receiver
          (some (box.accept ⟨sender, senderUid, mtype, tag, h.ticks, data⟩)))
  | rejected (h : Hal) (sender : Pid) (senderUid : UInt32) (dest : Dest) (mtype tag flags : UInt32)
      (data : Bytes) (e : Errno) :
      Step owner mail (.send h sender senderUid dest mtype tag flags data) (.done (.error e)) mail
  | received (pid : Pid) (flags : UInt32) (matchSender : Pid) (matchType matchTag : UInt32)
      (out : Bytes) (info : RecvInfo) :
      Step owner mail (.recv pid flags matchSender matchType matchTag out info)
        (.received (mail.recv pid flags matchSender matchType matchTag out info).1)
        (mail.recv pid flags matchSender matchType matchTag out info).2
  | service (h : Hal) (pid : Pid) (op : UInt32) (name : Bytes) (result : Except Errno Pid) :
      Step owner mail (.service h pid op name) (.owner result) mail
  | stat (h : Hal) (pid : Pid) (result : Except Errno Stat) (reports : mail.Reports pid result) :
      Step owner mail (.stat h pid) (.stat result) mail
  | allow (pid target : Pid) (add : Bool) (result : Except Errno Unit) :
      Step owner mail (.allow pid target add) (.done result) mail
  | setPolicy (pid : Pid) (policy : UInt32) (result : Except Errno Unit) :
      Step owner mail (.setPolicy pid policy) (.done result) mail

end Mail

/-- The process a name belongs to. -/
def Msg.owner (m : Msg) (name : Bytes) : Option Pid :=
  (m.findService name).map fun k => (m.services k).pid

/-- Every reply the table gives along some calls is one that the queues give. -/
def Mail.Explains : Mail → Msg → List Call → Prop
  | _, _, [] => True
  | mail, m, call :: rest =>
    ∃ after, mail.Step m.owner call (m.step call).1 after ∧ Explains after (m.step call).2 rest

/-- The message in a place of an inbox. -/
def Slot.post (s : Slot) : Post where
  sender := s.sender
  senderUid := s.senderUid
  mtype := s.mtype
  tag := s.tag
  tick := s.tick
  data := s.data.take s.len.toNat

/-- An inbox holds a queue: its messages in the order of their stamps are what waits there. -/
structure Inbox.Represents (b : Inbox) (box : Fifo Post) : Prop where
  queue : ∃ order, Table.Queued Slot.used (fun s => s.seq.toNat) b.slots order ∧
    box.waiting = order.map fun k => (b.slots k).post
  whole : ∀ k, (b.slots k).used = true → (b.slots k).len.toNat ≤ (b.slots k).data.length

namespace Inbox.Represents

variable {b b' : Inbox} {box : Fifo Post} {k : Fin queueDepth}

theorem congr (represents : b.Represents box) (slots : b'.slots = b.slots) : b'.Represents box where
  queue := by simpa only [slots] using represents.queue
  whole := by simpa only [slots] using represents.whole

theorem new (pid : Pid) (policy : UInt32) :
    Represents { inUse := true, pid := pid, policy := policy } Fifo.empty where
  queue := ⟨[], ⟨by simp, List.Pairwise.nil⟩, rfl⟩
  whole := nofun

/-- The count an inbox keeps is the length of its queue. -/
theorem count_eq (represents : b.Represents box) (sound : b.Sound) :
    b.count = UInt32.ofNat box.waiting.length := by
  obtain ⟨order, queued, waiting⟩ := represents.queue
  rw [sound.counted, waiting, length_map, queued.length_eq_count]

/-- The length of a message that fits survives being stored in a word. -/
theorem len_eq {data : Bytes} (fits : data.length ≤ maxPayload) :
    (UInt32.ofNat data.length).toNat = data.length :=
  UInt32.toNat_ofNat_of_lt' (Nat.lt_of_le_of_lt fits (by decide))

/-- The message read from a place that has just been filled is the one put there. -/
theorem post_self {p : Post} (fits : p.data.length ≤ maxPayload) :
    ((b.post k p).slots k).post = p := by
  simp only [post, enqueue, update_self, Slot.post, len_eq fits, take_left]

/-- A message that is posted comes last: its stamp is the highest. -/
theorem accept (represents : b.Represents box) (sound : b.Sound) {p : Post}
    (fits : p.data.length ≤ maxPayload) (placed : b.place p.sender = some k) :
    (b.post k p).Represents (box.accept p) := by
  obtain ⟨order, queued, waiting⟩ := represents.queue
  obtain ⟨free, _⟩ := place_some placed
  refine ⟨⟨order ++ [k], ?_, ?_⟩, ?_⟩
  · refine queued.push free rfl fun j used => ?_
    exact UInt64.lt_iff_toNat_lt.mp (sound.older j used)
  · -- The places already in the queue are other ones, so their messages are untouched.
    have others : order.map (fun j => ((b.post k p).slots j).post)
        = order.map fun j => (b.slots j).post := by
      refine map_congr_left fun j member => ?_
      have apart : j ≠ k := by
        rintro rfl
        simp [(queued.mem j).mp member] at free
      simp [post, enqueue, apart]
    rw [map_append, others, map_singleton, post_self fits, ← waiting]
    rfl
  · intro j used
    by_cases same : j = k
    · subst same
      simp only [post, enqueue, update_self, len_eq fits, length_append]
      exact Nat.le_add_right _ _
    · simp only [post, enqueue, update_of_ne same] at used ⊢
      exact represents.whole j used

/-- The oldest message an inbox finds is the oldest that waits. -/
theorem oldest_eq (represents : b.Represents box) (wanted : Post → Bool) :
    box.oldest wanted = (b.oldest fun s => wanted s.post).map fun k => (b.slots k).post := by
  obtain ⟨order, queued, waiting⟩ := represents.queue
  rw [Fifo.oldest, waiting, List.find?_map, oldest, queued.lowest?_eq]
  rfl

/-- The oldest match is the first match of the queue. -/
theorem take (represents : b.Represents box) {wanted : Post → Bool}
    (oldest : (b.oldest fun s => wanted s.post) = some k) :
    (b.consume k).Represents (box.take wanted) := by
  obtain ⟨order, queued, waiting⟩ := represents.queue
  rw [Inbox.oldest, queued.lowest?_eq] at oldest
  have left : Table.Queued Slot.used (fun s => s.seq.toNat) (b.consume k).slots _ :=
    queued.pop oldest rfl
  refine ⟨⟨_, left, ?_⟩, ?_⟩
  · -- Freeing a place does not touch the message that stood there.
    have same : (fun j => ((b.consume k).slots j).post) = fun j => (b.slots j).post := by
      funext j
      by_cases same : j = k
      · subst same
        simp [consume, Slot.post]
      · simp [consume, same]
    show box.waiting.eraseP wanted = _
    rw [same, waiting, eraseP_map]
    rfl
  · intro j used
    by_cases same : j = k
    · subst same
      simp [consume] at used
    · simp only [consume, update_of_ne same] at used ⊢
      exact represents.whole j used

end Inbox.Represents

/-- The table holds the mail of every process. -/
def Msg.Holds (m : Msg) (mail : Mail) : Prop :=
  ∀ pid, match m.findInbox pid with
    | none => mail pid = none
    | some i => ∃ box, mail pid = some box ∧ (m.inboxes i).Represents box

namespace Msg.Holds

variable {m m' : Msg} {mail : Mail} {i : Fin maxInboxes} {b : Inbox}

variable (holds : m.Holds mail)

include holds

theorem absent {pid : Pid} (missed : m.findInbox pid = none) : mail pid = none := by
  have here := holds pid
  rwa [missed] at here

theorem present {pid : Pid} (found : m.findInbox pid = some i) :
    ∃ box, mail pid = some box ∧ (m.inboxes i).Represents box := by
  have here := holds pid
  rwa [found] at here

/-- What leaves inboxes with their owners and their messages in place leaves the mail alone. -/
theorem quiet (found : m'.findInbox = m.findInbox)
    (slots : ∀ i, (m'.inboxes i).slots = (m.inboxes i).slots) : m'.Holds mail := by
  intro pid
  rw [found]
  cases here : m.findInbox pid with
  | none => exact holds.absent here
  | some i =>
    obtain ⟨box, present, represents⟩ := holds.present here
    exact ⟨box, present, represents.congr (slots i)⟩

theorem setService (k : Fin maxServices) (s : Service) : (m.setService k s).Holds mail :=
  holds.quiet rfl fun _ => rfl

/-- An inbox whose queue moves on takes the mail of its owner along. -/
theorem setInbox {pid : Pid} {box : Fifo Post} (found : m.findInbox pid = some i)
    (inUse : b.inUse = (m.inboxes i).inUse) (owner : b.pid = (m.inboxes i).pid)
    (represents : b.Represents box) : (m.setInbox i b).Holds (update mail pid (some box)) := by
  intro other
  rw [findInbox_setInbox inUse owner]
  by_cases same : other = pid
  · subst same
    rw [found]
    exact ⟨box, update_self .., by simpa [Msg.setInbox] using represents⟩
  rw [update_of_ne same]
  cases here : m.findInbox other with
  | none => exact holds.absent here
  | some j =>
    have apart : j ≠ i := by
      rintro rfl
      exact same ((findInbox_some here).2.2.symm.trans (findInbox_some found).2.2)
    simpa only [Msg.setInbox, update_of_ne apart] using holds.present here

/-- A change to an inbox that does not touch its messages. -/
theorem setInbox_quiet (inUse : b.inUse = (m.inboxes i).inUse) (owner : b.pid = (m.inboxes i).pid)
    (slots : b.slots = (m.inboxes i).slots) : (m.setInbox i b).Holds mail := by
  refine holds.quiet (findInbox_setInbox inUse owner) fun j => ?_
  by_cases same : j = i
  · subst same
    simpa [Msg.setInbox] using slots
  · simp [Msg.setInbox, same]

/-- A new inbox is an empty queue. -/
theorem opened {pid : Pid} {policy : UInt32} (free : (m.inboxes i).inUse = false)
    (positive : 0 < pid) (absent : m.findInbox pid = none) :
    (m.setInbox i { inUse := true, pid := pid, policy := policy }).Holds
      (update mail pid (some Fifo.empty)) := by
  have missing := findInbox_none positive absent
  intro other
  by_cases same : other = pid
  · subst same
    have found : (m.setInbox i { inUse := true, pid := other, policy := policy }).findInbox other
        = some i := by
      rw [findInbox, if_neg (Int.not_le.mpr positive)]
      refine Table.first?_of_unique (by simp [Msg.setInbox]) fun j passes => ?_
      by_contra apart
      simp only [Msg.setInbox, update_of_ne apart, Bool.and_eq_true, beq_iff_eq] at passes
      exact missing j passes
    rw [found]
    refine ⟨Fifo.empty, update_self .., ?_⟩
    simpa [Msg.setInbox] using Represents.new other policy
  · -- Nobody else finds the new inbox, which was nobody's before.
    have found : (m.setInbox i { inUse := true, pid := pid, policy := policy }).findInbox other
        = m.findInbox other := by
      refine findInbox_agree fun j => ?_
      by_cases here : j = i
      · subst here
        simp [Msg.setInbox, free, Ne.symm same]
      · simp [Msg.setInbox, here]
    rw [found, update_of_ne same]
    cases here : m.findInbox other with
    | none => exact holds.absent here
    | some j =>
      have apart : j ≠ i := by
        rintro rfl
        simp [(findInbox_some here).2.1] at free
      simpa only [Msg.setInbox, update_of_ne apart] using holds.present here

/-- The queue goes with its process; the others find theirs as before. -/
theorem dropped (pid : Pid) : (m.dropProcess pid).Holds (update mail pid none) := by
  intro other
  by_cases same : other = pid
  · subst same
    rw [update_self]
    cases here : (m.dropProcess other).findInbox other with
    | none => rfl
    | some i =>
      obtain ⟨_, inUse, owner⟩ := findInbox_some here
      obtain ⟨_, apart, kept⟩ := dropProcess_inbox inUse
      rw [kept] at owner
      exact absurd owner apart
  · have found : (m.dropProcess pid).findInbox other = m.findInbox other := by
      refine findInbox_agree fun i => ⟨?_, ?_⟩
      · rintro ⟨inUse, owner⟩
        obtain ⟨live, _, kept⟩ := dropProcess_inbox inUse
        rw [kept] at owner
        exact ⟨live, owner⟩
      · rintro ⟨live, rfl⟩
        exact dropProcess_other live same
    rw [found, update_of_ne same]
    cases here : m.findInbox other with
    | none => exact holds.absent here
    | some i =>
      obtain ⟨box, present, represents⟩ := holds.present here
      obtain ⟨_, inUse, _⟩ := findInbox_some (found.trans here)
      obtain ⟨_, _, kept⟩ := dropProcess_inbox inUse
      exact ⟨box, present, represents.congr (by rw [kept])⟩

end Msg.Holds

namespace Msg

variable {m : Msg} {mail : Mail}

/-- A message is described as its sender wrote it. -/
theorem info_eq {s : Slot} (whole : s.len.toNat ≤ s.data.length) {count : UInt32} {pending : Nat}
    (counted : count = UInt32.ofNat pending) : s.info count = s.post.info pending := by
  simp [Slot.info, Post.info, Slot.post, Nat.min_eq_left whole, counted]

/-- Receiving answers as the queues do. -/
theorem Holds.recv (holds : m.Holds mail) (books : m.Books) (pid : Pid) (flags : UInt32)
    (matchSender : Pid) (matchType matchTag : UInt32) (out : Bytes) (info : RecvInfo) :
    (m.recv pid flags matchSender matchType matchTag out info).1
        = (mail.recv pid flags matchSender matchType matchTag out info).1 ∧
      (m.recv pid flags matchSender matchType matchTag out info).2.Holds
        (mail.recv pid flags matchSender matchType matchTag out info).2 := by
  unfold Msg.recv Mail.recv
  split
  · exact ⟨rfl, holds⟩
  cases found : m.findInbox pid with
  | none =>
    rw [holds.absent found]
    exact ⟨rfl, holds⟩
  | some i => ?_
  obtain ⟨box, present, represents⟩ := holds.present found
  have live := (findInbox_some found).2.1
  have oldest := represents.oldest_eq (Post.wanted flags matchSender matchType matchTag)
  have sound := books.sound i live
  rw [present]
  dsimp only
  -- The table looks for the same message, told by the fields of its place.
  change box.oldest _ = ((m.inboxes i).oldest fun s =>
    wants flags matchSender matchType matchTag s.sender s.mtype s.tag).map _ at oldest
  cases picked : (m.inboxes i).oldest fun s =>
      wants flags matchSender matchType matchTag s.sender s.mtype s.tag with
  | none =>
    rw [picked] at oldest
    rw [oldest]
    exact ⟨rfl, holds⟩
  | some k =>
    rw [picked] at oldest
    rw [oldest]
    have used := oldest_some picked
    have whole := represents.whole k used
    have length : ((m.inboxes i).slots k).post.data.length = ((m.inboxes i).slots k).len.toNat := by
      simp [Slot.post, Nat.min_eq_left whole]
    simp only [Option.map_some, length]
    split
    · exact ⟨by rw [info_eq whole (represents.count_eq sound)], holds⟩
    split
    · have taken : ((m.inboxes i).consume k).Represents
          (box.take (Post.wanted flags matchSender matchType matchTag)) :=
        represents.take picked
      refine ⟨?_, holds.setInbox found rfl rfl taken⟩
      rw [info_eq whole (taken.count_eq (sound.consume used))]
      rfl
    · refine ⟨?_, holds⟩
      rw [info_eq whole (represents.count_eq sound)]
      rfl

/-- The fields of the next message are those a receive without any filter reports. -/
theorem Holds.stat (holds : m.Holds mail) (books : m.Books) (h : Hal) (pid : Pid) :
    mail.Reports pid (m.stat h pid) := by
  unfold Msg.stat
  cases found : m.findInbox pid with
  | none => exact ⟨holds.absent found, rfl⟩
  | some i => ?_
  obtain ⟨box, present, represents⟩ := holds.present found
  have sound := books.sound i (findInbox_some found).2.1
  refine ⟨box, present, represents.count_eq sound, fun out => ?_⟩
  have any : Post.wanted 0 0 0 0 = fun _ => true := by
    funext p
    simp [Post.wanted, wants]
  have oldest := represents.oldest_eq fun _ => true
  simp only [Mail.recv, UInt32.zero_and, ne_eq, not_true_eq_false, if_false, if_true, present, any]
  cases picked : (m.inboxes i).oldest fun _ => true with
  | none =>
    rw [picked] at oldest
    simp [oldest]
  | some k =>
    rw [picked] at oldest
    have whole := represents.whole k (oldest_some picked)
    simp only [oldest, Option.map_some]
    split <;> simp [Slot.info, Post.info, Slot.post, Nat.min_eq_left whole]

/-- A message taken in goes to the process it was addressed to. -/
theorem resolve_addressed {h : Hal} {dest : Dest} {receiver : Pid}
    (resolved : m.resolve h dest = (.ok receiver, m)) : dest.Reaches m.owner receiver := by
  cases dest with
  | pid p =>
    simp only [resolve] at resolved
    split at resolved
    · simp at resolved
    · simp only [Prod.mk.injEq, Except.ok.injEq, and_true] at resolved
      exact resolved.symm
  | name n => ?_
  simp only [resolve] at resolved
  split at resolved
  · simp at resolved
  split at resolved
  · simp at resolved
  rename_i k found
  split at resolved
  · simp at resolved
  · simp only [Prod.mk.injEq, Except.ok.injEq, and_true] at resolved
    simp [Dest.Reaches, owner, found, resolved]

/-- Registering, giving up and looking up names leaves every inbox alone. -/
theorem service_inboxes (h : Hal) (pid : Pid) (op : UInt32) (name : Bytes) :
    (m.service h pid op name).2.inboxes = m.inboxes := by
  unfold service
  split
  · rfl
  split
  · unfold register
    split
    · rfl
    split
    · dsimp only
      split
      · rfl
      · split
        · rfl
        · split <;> rfl
    · split
      · rfl
      · split <;> rfl
  split
  · unfold unregister
    split
    · rfl
    · split <;> rfl
  split
  · unfold lookup
    split
    · rfl
    · dsimp only
      split <;> rfl
  · rfl

/-- Changes to an allowlist or a policy leave the messages alone. -/
theorem Holds.allow (holds : m.Holds mail) (pid target : Pid) (add : Bool) :
    (m.allow pid target add).2.Holds mail := by
  unfold Msg.allow
  split
  · exact holds
  dsimp only
  split
  · exact holds
  split
  · split
    · exact holds
    · split
      · exact holds
      · exact holds.setInbox_quiet rfl rfl rfl
  · exact holds.setInbox_quiet rfl rfl rfl

theorem Holds.setPolicy (holds : m.Holds mail) (pid : Pid) (policy : UInt32) :
    (m.setPolicy pid policy).2.Holds mail := by
  unfold Msg.setPolicy
  split
  · exact holds
  split
  · exact holds
  · exact holds.setInbox_quiet rfl rfl rfl

/-- One call of the table is one of the queues. -/
theorem Holds.step (holds : m.Holds mail) (books : m.Books) (call : Call) :
    ∃ after, mail.Step m.owner call (m.step call).1 after ∧ (m.step call).2.Holds after := by
  cases call with
  | opening pid policy flags =>
    simp only [Msg.step, openInbox]
    split
    · exact ⟨mail, .notOpened .., holds⟩
    rename_i accepted
    simp only [not_or, Int.not_le] at accepted
    split
    · exact ⟨mail, .notOpened .., holds⟩
    rename_i missed
    have absent : m.findInbox pid = none := by simpa using missed
    split
    · exact ⟨mail, .notOpened .., holds⟩
    · rename_i i found
      have free := Table.first?_eq_some found
      exact ⟨_, .opened pid policy flags _ (holds.absent absent),
        holds.opened (by simpa using free) accepted.2.2 absent⟩
  | close pid =>
    simp only [Msg.step, close]
    cases found : m.findInbox pid with
    | none => exact ⟨mail, .notClosed pid (holds.absent found), holds⟩
    | some i =>
      obtain ⟨box, present, _⟩ := holds.present found
      exact ⟨_, .closed pid box present, holds.dropped pid⟩
  | exit pid => exact ⟨_, .exited pid, holds.dropped pid⟩
  | send h sender senderUid dest mtype tag flags data =>
    simp only [Msg.step]
    rcases m.send_cases h sender senderUid dest mtype tag flags data with
      ⟨receiver, i, k, resolved, found, _, fits, placed, sent⟩ |
        ⟨e, sent | ⟨k, -, sent⟩ | ⟨_, i, -, -, sent⟩⟩
    · rw [sent]
      obtain ⟨box, present, represents⟩ := holds.present found
      have sound := books.sound i (findInbox_some found).2.1
      exact ⟨_, .accepted h sender senderUid dest mtype tag flags data receiver box
          (resolve_addressed resolved) present,
        holds.setInbox found rfl rfl (represents.accept sound fits placed)⟩
    · rw [sent]
      exact ⟨mail, .rejected .., holds⟩
    · rw [sent]
      exact ⟨mail, .rejected .., holds.setService k _⟩
    · rw [sent]
      exact ⟨mail, .rejected .., holds.setInbox_quiet rfl rfl rfl⟩
  | recv pid flags matchSender matchType matchTag out info =>
    obtain ⟨reply, after⟩ := holds.recv books pid flags matchSender matchType matchTag out info
    refine ⟨_, ?_, after⟩
    simp only [Msg.step, reply]
    exact .received pid flags matchSender matchType matchTag out info
  | service h pid op name =>
    have inboxes := m.service_inboxes h pid op name
    have found : (m.service h pid op name).2.findInbox = m.findInbox :=
      findInbox_congr fun i => by rw [inboxes]; exact ⟨rfl, rfl⟩
    exact ⟨mail, .service h pid op name _, holds.quiet found fun i => by
      show ((m.service h pid op name).2.inboxes i).slots = _
      rw [inboxes]⟩
  | stat h pid => exact ⟨mail, .stat h pid _ (holds.stat books h pid), holds⟩
  | allow pid target add => exact ⟨mail, .allow pid target add _, holds.allow pid target add⟩
  | setPolicy pid policy => exact ⟨mail, .setPolicy pid policy _, holds.setPolicy pid policy⟩

theorem holds_new : new.Holds fun _ => none := by
  intro pid
  have missed : new.findInbox pid = none := by
    by_contra present
    obtain ⟨_, i, live, _⟩ := findInbox_isSome.mp (Option.isSome_iff_ne_none.mpr present)
    simp [new] at live
  rw [missed]

/-- By induction on the calls; the books are kept along the way. -/
theorem Holds.run {calls : List Call} (holds : m.Holds mail) (books : m.Books)
    (within : m.Within calls) : mail.Explains m calls := by
  -- Along the run the table stays in order, which is what each single call needs.
  induction calls generalizing m mail with
  | nil => trivial
  | cons call rest ih =>
    obtain ⟨sender, stamps, within⟩ := within
    obtain ⟨after, explained, next⟩ := holds.step books call
    exact ⟨after, explained, ih next (books.change (m.step_change call) sender stamps) within⟩

/-- The table answers every run of calls as selective queues do, unless an inbox ran out of
stamps. -/
theorem inbox_refines_fifo (calls : List Call) (within : new.Within calls) :
    Mail.Explains (fun _ => none) new calls :=
  holds_new.run books_new within

theorem inbox_refines_fifo_two :
    Mail.Explains (fun _ => none) new [.opening 1 acceptAny 0, .send lively 2 0 (.pid 1) 5 0 0 [7],
      .send lively 3 0 (.pid 1) 6 0 0 [8, 9], .stat lively 1, .recv 1 0 3 0 0 [0, 0] {}] := by
  apply inbox_refines_fifo
  have fresh : ∀ i, (new.inboxes i).nextSeq.toNat ≤ 0 := fun _ => Nat.le_refl 0
  exact within_of_length fresh (by decide) (by simp [Call.FromProcess, Call.post])

/-- An inbox whose counter has started over hands out the message that comes next before the one
that waits. -/
theorem Serves.overtaken {i : Fin maxInboxes} {first : Fin queueDepth} (serves : m.Serves i 0)
    (taken : ((m.inboxes i).slots first).used = true)
    (stamped : 0 < ((m.inboxes i).slots first).seq.toNat)
    (alone : ∀ j, j ≠ first → ((m.inboxes i).slots j).used = false) :
    ∃ reply, (m.step (Msg.letter 2)).1 = .done (.ok ()) ∧
      ((m.step (Msg.letter 2)).2.step Msg.collect).1 = .received reply ∧
      reply.result = .ok () ∧ reply.info.mtype = 2 := by
  obtain ⟨second, placed⟩ := place_of_few alone 2
  have apart : first ≠ second := by
    rintro rfl
    have free := (place_some placed).1
    simp [taken] at free
  have sent := serves.letter (show (2 : UInt32) ≠ 0 by decide) placed
  have serving := serves.setInbox (b := (m.inboxes i).post second ⟨2, 0, 2, 0, 0, []⟩) rfl rfl rfl
  have collected := serving.collect (k := second)
    (by simp [Msg.setInbox, post, enqueue])
    (by simp [Msg.setInbox, post, enqueue])
    fun j other queued => by
      -- Nothing else is queued but the first message, and its stamp is above zero.
      by_cases same : j = first
      · subst same
        simpa [Msg.setInbox, post, enqueue, other, serves.stamps] using stamped
      · simp [Msg.setInbox, post, enqueue, other, alone j same] at queued
  rw [sent]
  refine ⟨_, rfl, congrArg Prod.fst collected, rfl, ?_⟩
  simp [Msg.setInbox, post, enqueue, Slot.info]

/-- The stamp after the last is the first. Of two messages accepted one after the other, the second
then looks older, and a receive without any filter hands it out first. -/
theorem wrapped_stamp_overtakes :
    ∃ calls after reply, (∀ call ∈ calls, call.FromProcess) ∧
      (new.run calls).step (Msg.letter 1) = (.done (.ok ()), after) ∧
      (after.step (Msg.letter 2)).1 = .done (.ok ()) ∧
      ((after.step (Msg.letter 2)).2.step Msg.collect).1 = .received reply ∧
      reply.result = .ok () ∧ reply.info.mtype = 2 := by
  obtain ⟨calls, senders, i, serves, empty⟩ := stamps_given (2 ^ 64 - 1)
  obtain ⟨first, placed⟩ := place_of_few (k := ⟨0, by decide⟩) (fun j _ => empty j) 2
  have sent := serves.letter (show (1 : UInt32) ≠ 0 by decide) placed
  have serving := serves.setInbox (b := ((new.run calls).inboxes i).post first ⟨2, 0, 1, 0, 0, []⟩)
    rfl rfl rfl
  have restarts : (((new.run calls).inboxes i).post first ⟨2, 0, 1, 0, 0, []⟩).nextSeq = 0 := by
    simp [post, enqueue, serves.stamps]
  rw [restarts] at serving
  obtain ⟨reply, accepted, received, result, mtype⟩ := serving.overtaken
    (show (((Msg.setInbox _ i _).inboxes i).slots first).used = true by
      simp [Msg.setInbox, post, enqueue])
    (by simp [Msg.setInbox, post, enqueue, serves.stamps])
    fun j apart => by simp [Msg.setInbox, post, enqueue, apart, empty]
  exact ⟨calls, _, reply, senders, sent, accepted, received, result, mtype⟩

end Msg

end NovaOs.Ipc
