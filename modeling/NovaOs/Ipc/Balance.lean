import NovaOs.Ipc.Books

/-! Every call keeps the table in order, until an inbox runs out of stamps. -/

namespace NovaOs.Ipc

open Function Inbox Table List

/-- The highest stamp there is; the counter starts over behind it. -/
def lastSeq : UInt64 := 0xFFFFFFFFFFFFFFFF

namespace Inbox.Sound

variable {b : Inbox} {k : Fin queueDepth}

theorem refuse (sound : b.Sound) : b.refuse.Sound :=
  { sound with }

theorem setPolicy (sound : b.Sound) {policy : UInt32} (valid : policy ≤ acceptAllowlist) :
    Sound { b with policy := policy } :=
  { sound with policed := valid }

/-- A process that leaves is off every list. -/
theorem strike (sound : b.Sound) (pid : Pid) :
    Sound { b with allow := Msg.strike b.allow pid } :=
  { sound with
    allowed := by
      intro j
      simp only [Msg.strike]
      split
      · exact Int.le_refl 0
      · exact sound.allowed j
    distinct := by
      intro j k left right same
      simp only [Msg.strike] at left right same
      -- An entry still in the list is the one that stood there before.
      split at left
      · exact absurd rfl left
      split at right
      · exact absurd rfl right
      · rename_i kept other
        rw [if_neg kept, if_neg other] at same
        exact sound.distinct j k left right same }

theorem allow (sound : b.Sound) (j : Fin maxAllow) {target : Pid} (positive : 0 < target)
    (fresh : ∀ k, b.allow k ≠ target) :
    Sound { b with allow := update b.allow j target } :=
  { sound with
    allowed := (forall_update_iff b.allow fun _ pid => 0 ≤ pid).mpr
      ⟨Int.le_of_lt positive, fun k _ => sound.allowed k⟩
    distinct := unique_update (· ≠ 0) id sound.distinct fun k _ _ => fresh k }

/-- A stamp below the last leaves room for one more. -/
theorem lt_next {stamp : UInt64} (room : stamp ≠ lastSeq) : stamp < stamp + 1 := by
  have below : stamp.toNat ≠ lastSeq.toNat := fun same => room (UInt64.toNat_inj.mp same)
  have bound := stamp.toNat_lt
  rw [UInt64.lt_iff_toNat_lt, UInt64.toNat_add, UInt64.toNat_one]
  have last : lastSeq.toNat = 2 ^ 64 - 1 := by decide
  omega

/-- A new message has the highest stamp, and its sender a share to spare. -/
theorem post (sound : b.Sound) {p : Post} (typed : p.mtype ≠ 0)
    (fits : p.data.length ≤ maxPayload) (placed : b.place p.sender = some k)
    (positive : 0 < p.sender) (room : b.nextSeq ≠ lastSeq) : (b.post k p).Sound := by
  obtain ⟨free, share⟩ := place_some placed
  have above := lt_next room
  refine ⟨sound.owned, ?_, sound.policed, sound.allowed, sound.distinct, ?_, ?_, ?_, ?_⟩
  · have counted := count_update Slot.used b.slots k ((b.post k p).slots k)
    simp only [Inbox.post, enqueue, update_self, free, Bool.false_eq_true, if_false,
      if_true, Nat.add_zero] at counted ⊢
    rw [counted, sound.counted, UInt32.ofNat_add]
    rfl
  · refine (forall_update_iff b.slots fun _ s => s.used = true →
        s.mtype ≠ 0 ∧ s.len.toNat ≤ maxPayload ∧ 0 < s.sender).mpr
      ⟨fun _ => ⟨typed, ?_, positive⟩, fun j _ => sound.fields j⟩
    have short : p.data.length < 2 ^ 32 := Nat.lt_of_le_of_lt fits (by decide)
    rwa [UInt32.toNat_ofNat_of_lt' short]
  · exact unique_update (fun s : Slot => s.used = true) Slot.seq sound.stamped
      fun j _ queued => UInt64.ne_of_lt (sound.older j queued)
  · exact (forall_update_iff b.slots fun _ s => s.used = true → s.seq < b.nextSeq + 1).mpr
      ⟨fun _ => above, fun j _ queued => UInt64.lt_trans (sound.older j queued) above⟩
  · intro sender
    have held := count_update (fun s : Slot => s.used && s.sender == sender) b.slots k
      ((b.post k p).slots k)
    simp only [Inbox.post, enqueue, update_self, free, Bool.false_and,
      Bool.false_eq_true, if_false, Nat.add_zero, Bool.true_and, beq_iff_eq] at held
    have before := sound.shared sender
    simp only [heldBy, Inbox.post, enqueue] at before share ⊢
    rw [held]
    split
    · rename_i own
      subst own
      exact share
    · exact before

/-- Taking a message out keeps the inbox sound. -/
theorem consume (sound : b.Sound) (used : (b.slots k).used = true) : (b.consume k).Sound := by
  -- A message still queued afterwards is another one, where it was before.
  have others : ∀ j, ((b.consume k).slots j).used = true →
      (b.consume k).slots j = b.slots j := by
    intro j queued
    by_cases same : j = k
    · subst same
      simp [Inbox.consume] at queued
    · simp [Inbox.consume, update_of_ne same]
  have before : ∀ j, ((b.consume k).slots j).used = true → (b.slots j).used = true :=
    fun j queued => others j queued ▸ queued
  refine ⟨sound.owned, ?_, sound.policed, sound.allowed, sound.distinct, ?_, ?_, ?_, ?_⟩
  · have counted := count_update Slot.used b.slots k ((b.consume k).slots k)
    simp only [Inbox.consume, update_self, used, Bool.false_eq_true, if_false, if_true,
      Nat.add_zero] at counted ⊢
    rw [sound.counted, ← counted, UInt32.ofNat_add]
    exact UInt32.add_sub_cancel _ _
  · intro j queued
    rw [others j queued]
    exact sound.fields j (before j queued)
  · intro i j left right equal
    rw [others i left, others j right] at equal
    exact sound.stamped i j (before i left) (before j right) equal
  · intro j queued
    rw [others j queued]
    exact sound.older j (before j queued)
  · intro sender
    refine Nat.le_trans (count_mono fun j held => ?_) (sound.shared sender)
    simp only [Bool.and_eq_true] at held ⊢
    rw [← others j held.1]
    exact held

end Inbox.Sound

/-- An inbox as it is opened. -/
theorem Inbox.sound_new {pid : Pid} {policy : UInt32} (positive : 0 < pid)
    (valid : policy ≤ acceptAllowlist) :
    Sound { inUse := true, pid := pid, policy := policy } where
  owned := positive
  counted := by
    have none : Table.count Slot.used (fun _ : Fin queueDepth => ({} : Slot)) = 0 :=
      count_eq_zero.mpr fun _ => rfl
    rw [none]
    rfl
  policed := valid
  allowed := fun _ => Int.le_refl 0
  distinct := fun _ _ listed => absurd rfl listed
  fields := nofun
  stamped := nofun
  older := nofun
  shared := by
    intro sender
    have none : heldBy { inUse := true, pid := pid, policy := policy } sender = 0 := by
      simp [heldBy, count_eq_zero]
    rw [none]
    exact Nat.zero_le _

namespace Msg

variable {m m' : Msg} {pid : Pid} {i : Fin maxInboxes} {b : Inbox}

/-- Where no inbox changes hands, every process finds the same one. -/
theorem findInbox_congr (kept : ∀ i, (m'.inboxes i).inUse = (m.inboxes i).inUse ∧
    (m'.inboxes i).pid = (m.inboxes i).pid) : m'.findInbox = m.findInbox := by
  funext pid
  simp only [findInbox, first?, kept]

/-- Where a process owns the same inboxes, it finds the same one. -/
theorem findInbox_agree
    (agree : ∀ i,
    ((m'.inboxes i).inUse = true ∧ (m'.inboxes i).pid = pid) ↔
      ((m.inboxes i).inUse = true ∧ (m.inboxes i).pid = pid)) :
    m'.findInbox pid = m.findInbox pid := by
  have same : (fun i => (m'.inboxes i).inUse && (m'.inboxes i).pid == pid)
      = fun i => (m.inboxes i).inUse && (m.inboxes i).pid == pid := by
    funext i
    rw [Bool.eq_iff_iff]
    simpa using agree i
  simp only [findInbox, first?, same]

theorem setInbox_kept (inUse : b.inUse = (m.inboxes i).inUse) (pid : b.pid = (m.inboxes i).pid)
    (j : Fin maxInboxes) :
    ((m.setInbox i b).inboxes j).inUse = (m.inboxes j).inUse ∧
      ((m.setInbox i b).inboxes j).pid = (m.inboxes j).pid := by
  by_cases same : j = i
  · subst same
    simpa [setInbox] using ⟨inUse, pid⟩
  · simp [setInbox, same]

theorem findInbox_setInbox (inUse : b.inUse = (m.inboxes i).inUse)
    (pid : b.pid = (m.inboxes i).pid) : (m.setInbox i b).findInbox = m.findInbox :=
  findInbox_congr (setInbox_kept inUse pid)

/-- What a process that leaves does not take along belongs to another one. -/
theorem dropProcess_service {k : Fin maxServices}
    (used : ((m.dropProcess pid).services k).inUse = true) :
    (m.dropProcess pid).services k = m.services k ∧ (m.services k).pid ≠ pid := by
  simp only [dropProcess] at used ⊢
  split at used
  · simp at used
  · rename_i other
    rw [if_neg other]
    simp only [used, Bool.true_and, beq_iff_eq] at other
    exact ⟨rfl, other⟩

/-- The inboxes left are those of others, less one name on their lists. -/
theorem dropProcess_inbox (used : ((m.dropProcess pid).inboxes i).inUse = true) :
    (m.inboxes i).inUse = true ∧ (m.inboxes i).pid ≠ pid ∧ (m.dropProcess pid).inboxes i
      = { m.inboxes i with allow := strike (m.inboxes i).allow pid } := by
  simp only [dropProcess] at used ⊢
  split at used
  · simp at used
  rename_i other
  rw [if_neg other]
  split at used
  · rename_i live
    rw [if_pos live]
    simp only [live, Bool.true_and, beq_iff_eq] at other
    exact ⟨live, other, rfl⟩
  · contradiction

theorem dropProcess_other (live : (m.inboxes i).inUse = true) (other : (m.inboxes i).pid ≠ pid) :
    ((m.dropProcess pid).inboxes i).inUse = true ∧
      ((m.dropProcess pid).inboxes i).pid = (m.inboxes i).pid := by
  simp [dropProcess, live, other]

namespace Books

variable {i : Fin maxInboxes}

/-- An open inbox may change, as long as it stays in order and with its owner. -/
theorem setInbox (books : m.Books) (live : (m.inboxes i).inUse = true) (sound : b.Sound)
    (inUse : b.inUse = (m.inboxes i).inUse) (pid : b.pid = (m.inboxes i).pid) :
    (m.setInbox i b).Books := by
  have kept := setInbox_kept inUse pid
  refine ⟨?_, ?_, ?_, books.valid, ?_, books.unique, books.limited⟩
  · intro j free
    have apart : j ≠ i := by
      rintro rfl
      simp [(kept j).1, live] at free
    simp only [Msg.setInbox, update_of_ne apart] at free ⊢
    exact books.vacant j free
  · exact (forall_update_iff m.inboxes fun _ b => b.inUse = true → b.Sound).mpr
      ⟨fun _ => sound, fun j _ => books.sound j⟩
  · intro j k left right equal
    rw [(kept j).1] at left
    rw [(kept k).1] at right
    rw [(kept j).2, (kept k).2] at equal
    exact books.single j k left right equal
  · intro k used
    rw [findInbox_setInbox inUse pid]
    exact books.reachable k used

/-- A new inbox belongs to a process that had none. -/
theorem opened (books : m.Books) {policy : UInt32} (free : (m.inboxes i).inUse = false)
    (positive : 0 < pid) (policed : policy ≤ acceptAllowlist) (absent : m.findInbox pid = none) :
    (m.setInbox i { inUse := true, pid := pid, policy := policy }).Books := by
  have missing := findInbox_none positive absent
  refine ⟨?_, ?_, ?_, books.valid, ?_, books.unique, books.limited⟩
  · exact (forall_update_iff m.inboxes fun _ b => b.inUse = false →
        (∀ k, (b.slots k).used = false) ∧ b.count = 0).mpr ⟨nofun, fun j _ => books.vacant j⟩
  · exact (forall_update_iff m.inboxes fun _ b => b.inUse = true → b.Sound).mpr
      ⟨fun _ => sound_new positive policed, fun j _ => books.sound j⟩
  · exact unique_update (fun b : Inbox => b.inUse = true) Inbox.pid books.single
      fun j _ used equal => missing j ⟨used, equal⟩
  · intro k used
    obtain ⟨owner, j, live, same⟩ := findInbox_isSome.mp (books.reachable k used)
    have apart : j ≠ i := by
      rintro rfl
      simp [free] at live
    refine findInbox_isSome.mpr ⟨owner, j, ?_⟩
    simpa only [Msg.setInbox, update_of_ne apart] using ⟨live, same⟩

/-- Names may be given up at any time. -/
theorem fewer (books : m.Books) (inboxes : m'.inboxes = m.inboxes)
    (kept : ∀ k, (m'.services k).inUse = true → m'.services k = m.services k) : m'.Books := by
  have found : m'.findInbox = m.findInbox := findInbox_congr fun i => by simp [inboxes]
  have before : ∀ k, (m'.services k).inUse = true → (m.services k).inUse = true :=
    fun k used => kept k used ▸ used
  refine ⟨?_, ?_, ?_, ?_, ?_, ?_, ?_⟩
  · simpa only [inboxes] using books.vacant
  · simpa only [inboxes] using books.sound
  · simpa only [inboxes] using books.single
  · intro k used
    rw [kept k used]
    exact books.valid k (before k used)
  · intro k used
    rw [found, kept k used]
    exact books.reachable k (before k used)
  · intro j k left right equal
    rw [kept j left, kept k right] at equal
    exact books.unique j k (before j left) (before k right) equal
  · intro pid
    refine Nat.le_trans (count_mono fun k held => ?_) (books.limited pid)
    simp only [Bool.and_eq_true] at held ⊢
    rw [← kept k held.1]
    exact held

theorem forgotten (books : m.Books) (k : Fin maxServices) : (m.setService k {}).Books := by
  refine books.fewer rfl fun j used => ?_
  by_cases same : j = k
  · subst same
    simp [setService] at used
  · simp [setService, same]

/-- One more name for a process that can be reached and has room for it. -/
theorem setService (books : m.Books) {k : Fin maxServices} {s : Service} (inUse : s.inUse = true)
    (valid : validName s.name = true) (reachable : (m.findInbox s.pid).isSome)
    (room : m.namesOf s.pid < maxNamesPerProc)
    (unique : ∀ j, j ≠ k → (m.services j).inUse = true → (m.services j).name ≠ s.name) :
    (m.setService k s).Books := by
  refine ⟨books.vacant, books.sound, books.single, ?_, ?_, ?_, ?_⟩
  · exact (forall_update_iff m.services fun _ s => s.inUse = true → validName s.name = true).mpr
      ⟨fun _ => valid, fun j _ => books.valid j⟩
  · exact (forall_update_iff m.services fun _ s => s.inUse = true → (m.findInbox s.pid).isSome).mpr
      ⟨fun _ => reachable, fun j _ => books.reachable j⟩
  · exact unique_update (fun s : Service => s.inUse = true) Service.name books.unique unique
  · intro pid
    have names := count_update (fun s : Service => s.inUse && s.pid == pid) m.services k s
    have before := books.limited pid
    simp only [inUse, Bool.true_and, beq_iff_eq] at names
    show Table.count _ (update m.services k s) ≤ _
    simp only [namesOf] at before room
    by_cases own : s.pid = pid
    · subst own
      rw [if_pos rfl] at names
      omega
    · rw [if_neg own] at names
      omega

/-- A process leaves with its inbox, its names and its entries in the allowlists. -/
theorem dropped (books : m.Books) (pid : Pid) : (m.dropProcess pid).Books := by
  refine ⟨?_, ?_, ?_, ?_, ?_, ?_, ?_⟩
  · intro i free
    simp only [dropProcess] at free ⊢
    split at free
    · rename_i own
      rw [if_pos own]
      exact ⟨fun _ => rfl, rfl⟩
    rename_i other
    rw [if_neg other]
    split at free
    · simp_all
    · rename_i closed
      rw [if_neg closed]
      exact books.vacant i free
  · intro i used
    obtain ⟨live, _, kept⟩ := dropProcess_inbox used
    rw [kept]
    exact (books.sound i live).strike pid
  · intro i j left right equal
    obtain ⟨first, _, keptFirst⟩ := dropProcess_inbox left
    obtain ⟨second, _, keptSecond⟩ := dropProcess_inbox right
    rw [keptFirst, keptSecond] at equal
    exact books.single i j first second equal
  · intro k used
    obtain ⟨kept, _⟩ := dropProcess_service used
    rw [kept] at used ⊢
    exact books.valid k used
  · intro k used
    obtain ⟨kept, other⟩ := dropProcess_service used
    rw [kept] at used ⊢
    obtain ⟨positive, i, live, same⟩ := findInbox_isSome.mp (books.reachable k used)
    obtain ⟨inUse, owner⟩ := dropProcess_other live (same ▸ other)
    exact findInbox_isSome.mpr ⟨positive, i, inUse, owner.trans same⟩
  · intro j k left right equal
    obtain ⟨first, _⟩ := dropProcess_service left
    obtain ⟨second, _⟩ := dropProcess_service right
    rw [first] at left equal
    rw [second] at right equal
    exact books.unique j k left right equal
  · intro owner
    refine Nat.le_trans (count_mono fun k held => ?_) (books.limited owner)
    simp only [Bool.and_eq_true] at held ⊢
    obtain ⟨kept, _⟩ := dropProcess_service held.1
    rw [kept] at held
    exact held

end Books

/-- An inbox that stays open has given out its last stamp, and starts over. -/
def Overruns (m m' : Msg) : Prop :=
  ∃ i, (m.inboxes i).inUse = true ∧ (m'.inboxes i).inUse = true ∧
    (m.inboxes i).nextSeq = lastSeq ∧ (m'.inboxes i).nextSeq = 0

end Msg

/-- A message comes from a process, and those have positive numbers. -/
def Call.FromProcess (call : Call) : Prop :=
  ∀ p, call.post = some p → 0 < p.sender

namespace Msg

variable {m m' : Msg} {call : Call} {i : Fin maxInboxes} {stamp : UInt64} {b : Inbox}
  {k : Fin queueDepth} {calls : List Call}

/-- Every change keeps the books, while there are stamps left. -/
theorem Books.change (books : m.Books) (change : Change m call m') (sender : call.FromProcess)
    (stamps : ¬m.Overruns m') : m'.Books := by
  cases change with
  | same => exact books
  | opened i pid policy free positive policed absent =>
    exact books.opened free positive policed absent
  | dropped pid => exact books.dropped pid
  | forgotten k => exact books.forgotten k
  | renamed k pid live reachable room =>
    refine books.setService live (books.valid k live) reachable room fun j apart used equal => ?_
    exact apart (books.unique j k used live equal)
  | named k pid name free valid unknown reachable room =>
    refine books.setService rfl valid reachable room fun j _ used equal => ?_
    exact findService_none unknown j ⟨used, equal⟩
  | refused i live => exact books.setInbox live (books.sound i live).refuse rfl rfl
  | queued i k p live posted typed fits placed =>
    have room : (m.inboxes i).nextSeq ≠ lastSeq := by
      intro last
      refine stamps ⟨i, live, ?_, last, ?_⟩
      · simpa [Msg.setInbox, post, enqueue] using live
      · simp [Msg.setInbox, post, enqueue, last, lastSeq]
    have sound := (books.sound i live).post typed fits placed (sender p posted) room
    exact books.setInbox live sound rfl rfl
  | consumed i k live used =>
    exact books.setInbox live ((books.sound i live).consume used) rfl rfl
  | struck i target live => exact books.setInbox live ((books.sound i live).strike target) rfl rfl
  | allowed i k target live positive fresh =>
    exact books.setInbox live ((books.sound i live).allow k positive fresh) rfl rfl
  | policed i policy live valid =>
    exact books.setInbox live ((books.sound i live).setPolicy valid) rfl rfl

theorem books_new : new.Books where
  vacant := fun _ _ => ⟨fun _ => rfl, rfl⟩
  sound := nofun
  single := nofun
  valid := nofun
  reachable := nofun
  unique := nofun
  limited := by
    intro pid
    have none : new.namesOf pid = 0 := by
      simp [namesOf, count_eq_zero, new]
    rw [none]
    exact Nat.zero_le _

/-- Calls made by processes, none of which makes an inbox run out of stamps. -/
def Within : Msg → List Call → Prop
  | _, [] => True
  | m, call :: rest =>
    call.FromProcess ∧ ¬m.Overruns (m.step call).2 ∧ Within (m.step call).2 rest

theorem Books.run (books : m.Books) (within : m.Within calls) : (m.run calls).Books := by
  induction calls generalizing m with
  | nil => exact books
  | cons call rest ih =>
    obtain ⟨sender, stamps, within⟩ := within
    exact ih (books.change (m.step_change call) sender stamps) within

/-- One call gives out at most one stamp. -/
theorem stamps_change (change : Change m call m') (i : Fin maxInboxes) :
    (m'.inboxes i).nextSeq.toNat ≤ (m.inboxes i).nextSeq.toNat + 1 := by
  -- Every change but a new message leaves the counter of an inbox alone or sets it to zero.
  have set : ∀ j b, b.nextSeq.toNat ≤ (m.inboxes j).nextSeq.toNat + 1 →
      ((m.setInbox j b).inboxes i).nextSeq.toNat ≤ (m.inboxes i).nextSeq.toNat + 1 := by
    intro j b bound
    by_cases same : i = j
    · subst same
      simpa [setInbox] using bound
    · simp [setInbox, same]
  cases change with
  | same | forgotten k | renamed k pid live reachable room
  | named k pid name free valid unknown reachable room =>
    exact Nat.le_succ _
  | opened j pid policy free positive policed absent => exact set j _ (Nat.zero_le _)
  | dropped pid =>
    simp only [dropProcess]
    split
    · exact Nat.zero_le _
    · split <;> exact Nat.le_succ _
  | refused j live | consumed j k live used | struck j target live
  | allowed j k target live positive fresh | policed j policy live valid =>
    exact set j _ (Nat.le_succ _)
  | queued j k p live posted typed fits placed =>
    refine set j _ ?_
    simp only [post, enqueue, UInt64.toNat_add, UInt64.toNat_one]
    exact Nat.mod_le _ _

/-- Calls fewer than the stamps there are cannot use them up. -/
theorem within_of_length {given : Nat} (sent : ∀ i, (m.inboxes i).nextSeq.toNat ≤ given)
    (few : given + calls.length < 2 ^ 64) (senders : ∀ call ∈ calls, call.FromProcess) :
    m.Within calls := by
  induction calls generalizing m given with
  | nil => trivial
  | cons call rest ih =>
    rw [length_cons] at few
    refine ⟨senders call mem_cons_self, ?_, ?_⟩
    · rintro ⟨i, _, _, last, _⟩
      have bound := sent i
      have top : lastSeq.toNat = 2 ^ 64 - 1 := by decide
      rw [last, top] at bound
      omega
    · have next : ∀ i, ((m.step call).2.inboxes i).nextSeq.toNat ≤ given + 1 := by
        intro i
        have step := stamps_change (m.step_change call) i
        have bound := sent i
        omega
      exact ih next (by omega) fun call member => senders call (mem_cons_of_mem _ member)

/-- After any calls on a new table its self-check passes, unless an inbox ran out of stamps. -/
theorem check_counts_holds (calls : List Call) (within : new.Within calls) :
    (new.run calls).checkCounts = .ok () :=
  checkCounts_ok.mpr (books_new.run within)

/-- A kernel in which every process is alive. -/
def lively : Hal := ⟨fun _ _ => true, fun _ => none, 0⟩

theorem check_counts_holds_two :
    (new.run [.opening 1 acceptAny 0, .send lively 2 0 (.pid 1) 5 0 0 [7],
      .service lively 1 svcRegister [0x61], .recv 1 0 0 0 0 [0, 0] {}]).checkCounts = .ok () := by
  apply check_counts_holds
  have fresh : ∀ i, (new.inboxes i).nextSeq.toNat ≤ 0 := fun _ => Nat.le_refl 0
  exact within_of_length fresh (by decide) (by simp [Call.FromProcess, Call.post])

/-- A message for process 1, and the call that takes it out again. -/
def letter (mtype : UInt32) : Call := .send lively 2 0 (.pid 1) mtype 0 0 []
def collect : Call := .recv 1 0 0 0 0 [] {}

/-- An inbox of process 1, open to everyone, that has given out so many stamps. -/
structure Serves (m : Msg) (i : Fin maxInboxes) (stamp : UInt64) : Prop where
  found : m.findInbox 1 = some i
  anyone : (m.inboxes i).policy = acceptAny
  stamps : (m.inboxes i).nextSeq = stamp

theorem Serves.setInbox (serves : m.Serves i stamp) (inUse : b.inUse = (m.inboxes i).inUse)
    (pid : b.pid = (m.inboxes i).pid) (policy : b.policy = (m.inboxes i).policy) :
    (m.setInbox i b).Serves i b.nextSeq where
  found := by
    rw [findInbox_setInbox inUse pid]
    exact serves.found
  anyone := by simpa [Msg.setInbox, policy] using serves.anyone
  stamps := by simp [Msg.setInbox]

/-- A letter is queued where there is a free place and the sender's share is not used up. -/
theorem Serves.letter (serves : m.Serves i stamp) {mtype : UInt32} (typed : mtype ≠ 0)
    (placed : (m.inboxes i).place 2 = some k) :
    m.step (Msg.letter mtype)
      = (.done (.ok ()), m.setInbox i ((m.inboxes i).post k ⟨2, 0, mtype, 0, 0, []⟩)) := by
  have admitted : (m.inboxes i).admits ⟨fun _ _ => true, fun _ => none, 0⟩ 1 2 0 = .ok () := by
    simp [admits, serves.anyone, acceptAny, acceptSameUid, acceptAllowlist]
  simp [step, Msg.letter, send, typed, resolve, lively, serves.found, placed, post, admitted]

/-- An inbox with at most one message queued has a place for everyone. -/
theorem place_of_few (few : ∀ j, j ≠ k → (b.slots j).used = false) (sender : Pid) :
    ∃ j, b.place sender = some j := by
  have share : b.heldBy sender ≤ 1 := by
    have held := count_update (fun s : Slot => s.used && s.sender == sender) b.slots k {}
    have none : Table.count (fun s : Slot => s.used && s.sender == sender)
        (update b.slots k {}) = 0 := by
      rw [count_eq_zero]
      intro j
      by_cases same : j = k
      · simp [same]
      · simp [same, few j same]
    rw [none] at held
    simp only [Bool.false_and, Bool.false_eq_true, if_false] at held
    rw [heldBy]
    split at held <;> omega
  cases found : first? (fun s : Slot => !s.used) b.slots with
  | none =>
    have full : ∀ j, (b.slots j).used = true := by simpa using first?_eq_none found
    -- Two places cannot both be the one that is taken.
    have taken : ∀ j, j = k := fun j =>
      by_contra fun other => Bool.false_ne_true ((few j other).symm.trans (full j))
    have first := taken ⟨0, by decide⟩
    have second := taken ⟨1, by decide⟩
    simp [← second] at first
  | some j =>
    have room : b.heldBy sender < maxPerSender := Nat.lt_of_le_of_lt share (by decide)
    exact ⟨j, by simp [place, found, room]⟩

/-- The message asked for whose stamp is below all others is the one found. -/
theorem oldest_of_least {wanted : Slot → Bool} (used : (b.slots k).used = true)
    (asked : wanted (b.slots k) = true)
    (least : ∀ j, j ≠ k → (b.slots j).used = true →
      (b.slots k).seq.toNat < (b.slots j).seq.toNat) : b.oldest wanted = some k := by
  have low := lowest?_spec (fun s : Slot => s.seq.toNat) (fun s => s.used && wanted s) b.slots
  cases found : b.oldest wanted with
  | none =>
    have missed := low.missed found k (mem_finRange k)
    simp [used, asked] at missed
  | some j => ?_
  by_contra other
  have apart : j ≠ k := fun same => other (congrArg some same)
  have above := least j apart (oldest_some found)
  have below := low.least j found k (mem_finRange k) (by simp [used, asked])
  omega

/-- An empty message that is the oldest gets taken out. -/
theorem Serves.collect (serves : m.Serves i stamp) (used : ((m.inboxes i).slots k).used = true)
    (short : ((m.inboxes i).slots k).len = 0)
    (least : ∀ j, j ≠ k → ((m.inboxes i).slots j).used = true →
      ((m.inboxes i).slots k).seq.toNat < ((m.inboxes i).slots j).seq.toNat) :
    m.step Msg.collect
      = (.received ⟨.ok (), [], ((m.inboxes i).slots k).info ((m.inboxes i).consume k).count⟩,
        m.setInbox i ((m.inboxes i).consume k)) := by
  have oldest : (m.inboxes i).oldest (fun s => wants 0 0 0 0 s.sender s.mtype s.tag) = some k :=
    oldest_of_least used (by simp [wants]) least
  simp [step, Msg.collect, recv, serves.found, oldest, short]

/-- A letter comes in and is taken out again: one more stamp is gone, and nothing is queued. -/
theorem Serves.exchange (serves : m.Serves i stamp)
    (empty : ∀ k, ((m.inboxes i).slots k).used = false) :
    (m.run [Msg.letter 1, Msg.collect]).Serves i (stamp + 1) ∧
      ∀ k, (((m.run [Msg.letter 1, Msg.collect]).inboxes i).slots k).used = false := by
  obtain ⟨k, placed⟩ := place_of_few (k := ⟨0, by decide⟩) (fun j _ => empty j) 2
  have sent := serves.letter (show (1 : UInt32) ≠ 0 by decide) placed
  have serving := serves.setInbox (b := (m.inboxes i).post k ⟨2, 0, 1, 0, 0, []⟩) rfl rfl rfl
  have taken := serving.collect (k := k) (by simp [Msg.setInbox, post, enqueue])
    (by simp [Msg.setInbox, post, enqueue])
    fun j apart queued => by
      simp [Msg.setInbox, post, enqueue, apart, empty] at queued
  have ends : m.run [Msg.letter 1, Msg.collect] = ((m.step (Msg.letter 1)).2.step Msg.collect).2 :=
    rfl
  simp only [ends, sent, taken]
  constructor
  · have after := serving.setInbox (b := consume _ k) rfl rfl rfl
    simpa [Msg.setInbox, post, enqueue, consume, serves.stamps] using after
  · intro j
    by_cases same : j = k
    · subst same
      simp [Msg.setInbox, consume]
    · simp [Msg.setInbox, post, enqueue, consume, same, empty]

theorem run_append (calls more : List Call) : m.run (calls ++ more) = (m.run calls).run more :=
  foldl_append

/-- Any number of stamps can be given out, with nothing left queued. -/
theorem stamps_given (given : Nat) :
    ∃ calls, (∀ call ∈ calls, call.FromProcess) ∧
      ∃ i, (new.run calls).Serves i (UInt64.ofNat given) ∧
        ∀ k, (((new.run calls).inboxes i).slots k).used = false := by
  induction given with
  | zero =>
    refine ⟨[.opening 1 acceptAny 0], by simp [Call.FromProcess, Call.post], ⟨0, by decide⟩,
      ⟨by decide, by decide, by decide⟩, ?_⟩
    decide
  | succ given ih =>
    obtain ⟨calls, senders, i, serves, empty⟩ := ih
    refine ⟨calls ++ [Msg.letter 1, Msg.collect], ?_, i, ?_⟩
    · simpa [Call.FromProcess, Call.post, Msg.letter, Msg.collect, or_imp, forall_and] using senders
    · rw [run_append, UInt64.ofNat_add]
      exact serves.exchange empty

/-- An inbox that has given out every stamp but the last takes in one more message. Its counter
starts over, and the message is newer than the counter. -/
theorem last_stamp_breaks_check :
    ∃ calls, (∀ call ∈ calls, call.FromProcess) ∧ (new.run calls).checkCounts ≠ .ok () := by
  obtain ⟨calls, senders, i, serves, empty⟩ := stamps_given (2 ^ 64 - 1)
  obtain ⟨k, placed⟩ := place_of_few (k := ⟨0, by decide⟩) (fun j _ => empty j) 2
  have sent := serves.letter (show (1 : UInt32) ≠ 0 by decide) placed
  refine ⟨calls ++ [Msg.letter 1], ?_, ?_⟩
  · simpa [Call.FromProcess, Call.post, Msg.letter, or_imp, forall_and] using senders
  intro passes
  rw [run_append] at passes
  have books := checkCounts_ok.mp passes
  change Books ((new.run calls).step (Msg.letter 1)).2 at books
  rw [sent] at books
  have live := (findInbox_some serves.found).2.1
  have sound := books.sound i (by simpa [Msg.setInbox, post, enqueue] using live)
  have older := sound.older k (by simp [Msg.setInbox, post, enqueue])
  simp [Msg.setInbox, post, enqueue, serves.stamps] at older

end Msg

end NovaOs.Ipc
