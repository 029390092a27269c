import NovaOs.Shm.Accounting

/-! Who may map what: the events that give and take rights, and the access lists that keep them. -/

namespace NovaOs

open List

variable {want : UInt32}

/-- What happened to shared memory, as far as anyone's rights are concerned. -/
inductive ShmEvent where
  | created (owner : Pid) (slot : Fin maxObjects)
  -- A grant without rights is a revocation.
  | granted (owner : Pid) (slot : Fin maxObjects) (target : Pid) (rights : UInt32)
  | mapped (pid : Pid) (slot : Fin maxObjects) (rights : UInt32)
  | unmapped (pid : Pid) (slot : Fin maxObjects)
  | forked (parent child : Pid)
  | exited (pid : Pid)

namespace ShmSystem

/-- The event an operation is, if it succeeds. -/
def event (system : ShmSystem) : ShmOp → Option ShmEvent
  | .spawn _ => none
  | .create pid size flags =>
    if system.hal.live pid then
      match (system.shm.create system.hal pid size flags).1,
          Table.first? (fun object => !object.inUse) system.shm.objects with
      | .ok _, some slot => some (.created pid slot)
      | _, _ => none
    else none
  | .grant caller handle target rights =>
    if system.hal.live caller then
      match (system.shm.grant system.hal caller handle target rights).1,
          system.shm.lookup handle with
      | .ok _, .ok slot => some (.granted caller slot target rights)
      | _, _ => none
    else none
  | .map pid handle want =>
    if system.hal.live pid then
      match (system.shm.map system.hal pid handle want).1, system.shm.lookup handle with
      | .ok _, .ok slot => some (.mapped pid slot want)
      | _, _ => none
    else none
  | .unmap pid addr =>
    if system.hal.live pid then
      match Table.first? (fun record => record.inUse && (record.pid == pid && record.addr == addr))
          system.shm.maps with
      | some index => some (.unmapped pid (system.shm.maps index).obj)
      | none => none
    else none
  | .destroy _ _ => none
  | .processExit pid => if system.hal.live pid then some (.exited pid) else none
  | .fork parent child =>
    if system.hal.live parent && !system.hal.live child && !system.hal.mapFaults 0 then
      match (system.shm.fork parent child).1 with
      | .ok _ => some (.forked parent child)
      | .error _ => none
    else none

/-- One operation, noted if it succeeds. -/
def record (state : ShmSystem × List ShmEvent) (op : ShmOp) : ShmSystem × List ShmEvent :=
  (state.1.step op, (state.1.event op).toList ++ state.2)

/-- A history of operations together with what happened, newest event first. -/
def trace (system : ShmSystem) (ops : List ShmOp) : ShmSystem × List ShmEvent :=
  ops.foldl record (system, [])

end ShmSystem

/-- The process that created the object now in a slot, as long as it runs. -/
def ownerNow (slot : Fin maxObjects) : List ShmEvent → Option Pid
  | [] => none
  | .created owner at_ :: earlier => if at_ = slot then some owner else ownerNow slot earlier
  | .exited pid :: earlier =>
    if ownerNow slot earlier = some pid then none else ownerNow slot earlier
  | _ :: earlier => ownerNow slot earlier

/-- The rights its owner last gave this very process on the object now in a slot. -/
def grantedNow (pid : Pid) (slot : Fin maxObjects) : List ShmEvent → UInt32
  | [] => 0
  | .created _ at_ :: earlier => if at_ = slot then 0 else grantedNow pid slot earlier
  | .granted owner at_ target rights :: earlier =>
    if at_ = slot ∧ target = pid ∧ ownerNow slot earlier = some owner then rights
    else grantedNow pid slot earlier
  | .exited other :: earlier => if other = pid then 0 else grantedNow pid slot earlier
  | _ :: earlier => grantedNow pid slot earlier

/-- Granted rights that let their holder map an object as it asks. -/
def Allows (granted want : UInt32) : Prop :=
  granted &&& rightRead ≠ 0 ∧ (want &&& rightWrite ≠ 0 → granted &&& rightWrite ≠ 0)

/--
A process came by a mapping rightfully: it mapped the object as its owner or with rights
granted to it and not revoked since, or inherited the mapping from a process that did.
-/
inductive Authorised : List ShmEvent → Pid → Fin maxObjects → UInt32 → Prop where
  | mapped {log : List ShmEvent} {pid : Pid} {slot : Fin maxObjects} {rights : UInt32}
      (may : ownerNow slot log = some pid ∨ Allows (grantedNow pid slot log) rights) :
      Authorised (.mapped pid slot rights :: log) pid slot rights
  | inherited {log : List ShmEvent} {parent child : Pid} {slot : Fin maxObjects}
      {rights : UInt32} (source : Authorised log parent slot rights) :
      Authorised (.forked parent child :: log) child slot rights
  -- The mapping outlives what is neither the end of the process, of the mapping, nor of the object.
  | kept {log : List ShmEvent} {pid : Pid} {slot : Fin maxObjects} {rights : UInt32}
      {event : ShmEvent} (earlier : Authorised log pid slot rights)
      (running : event ≠ .exited pid) (held : event ≠ .unmapped pid slot)
      (same : ∀ owner, event ≠ .created owner slot) :
      Authorised (event :: log) pid slot rights

private theorem bit_of_covered {granted bit : UInt32} (covered : want &&& ~~~granted = 0)
    (wanted : bit &&& want = bit) (some_ : bit ≠ 0) : granted &&& bit ≠ 0 := by
  intro missing
  apply some_
  have split : bit = (want &&& ~~~granted &&& bit) ||| (want &&& (granted &&& bit)) := by
    calc bit = bit &&& want := wanted.symm
      _ = _ := by
        rw [← UInt32.toBitVec_inj]
        ext i inside
        simp only [UInt32.toBitVec_and, UInt32.toBitVec_or, UInt32.toBitVec_not,
          BitVec.getElem_and, BitVec.getElem_or, BitVec.getElem_not]
        cases want.toBitVec[i] <;> cases granted.toBitVec[i] <;> cases bit.toBitVec[i] <;> rfl
  rw [split, covered, missing]
  simp

/-- Rights that cover what was asked for allow it. -/
theorem allows_of_covered {granted : UInt32}
    (kinds : want = rightRead ∨ want = rightRead ||| rightWrite)
    (covered : want &&& ~~~granted = 0) : Allows granted want := by
  cases kinds with
  | inl reads =>
    subst reads
    exact ⟨bit_of_covered covered (by decide) (by decide), fun writes => absurd (by decide) writes⟩
  | inr both =>
    subst both
    exact ⟨bit_of_covered covered (by decide) (by decide),
      fun _ => bit_of_covered covered (by decide) (by decide)⟩

/-- No process has two entries with rights. -/
def Shm.Single (grants : List Grant) : Prop :=
  grants.Pairwise fun first second =>
    first.rights ≠ 0 → second.rights ≠ 0 → first.pid ≠ second.pid

namespace Shm

variable {grants : List Grant} {grant : Grant} {p : Grant → Bool} {change : Grant → Grant}
  {after : List Grant} {target : Pid}

/-- The one entry that was changed, with what stands before and after it. -/
theorem replaceFirst_eq_some (changed : replaceFirst p change grants = some after) :
    ∃ front grant back, grants = front ++ grant :: back ∧ p grant = true ∧
      after = front ++ change grant :: back := by
  induction grants generalizing after with
  | nil => cases changed
  | cons first rest ih =>
    rw [replaceFirst] at changed
    split at changed
    · rename_i here
      cases changed
      exact ⟨[], first, rest, rfl, here, rfl⟩
    · obtain ⟨tail, later, rfl⟩ := Option.map_eq_some_iff.mp changed
      obtain ⟨front, grant, back, rfl, passes, rfl⟩ := ih later
      exact ⟨first :: front, grant, back, rfl, passes, rfl⟩

theorem replaceFirst_eq_none (unchanged : replaceFirst p change grants = none)
    (member : grant ∈ grants) : p grant = false := by
  induction grants with
  | nil => simp at member
  | cons first rest ih =>
    rw [replaceFirst] at unchanged
    split at unchanged
    · cases unchanged
    · rename_i other
      rcases mem_cons.mp member with rfl | member
      · simpa using other
      · exact ih (by simpa using unchanged) member

/-- Revoking leaves the entries of all others. -/
theorem mem_revoke (member : grant ∈ revoke target grants) (some_ : grant.rights ≠ 0) :
    grant ∈ grants ∧ grant.pid ≠ target := by
  obtain ⟨source, inside, same⟩ := mem_map.mp member
  split at same
  · subst same
    exact absurd rfl some_
  rename_i other
  subst same
  refine ⟨inside, ?_⟩
  intro theirs
  simp [some_, theirs] at other

theorem Single.revoke (single : Single grants) (target : Pid) : Single (revoke target grants) := by
  -- Entries only ever become empty, and an empty entry is in nobody's way.
  have source : ∀ grant : Grant, (if grant.rights != 0 && grant.pid == target then emptyGrant
      else grant).rights ≠ 0 → (if grant.rights != 0 && grant.pid == target then emptyGrant
      else grant) = grant := by
    intro grant some_
    split at some_
    · exact absurd rfl some_
    · rename_i other
      rw [if_neg other]
  refine pairwise_map.mpr (single.imp ?_)
  intro first second apart someFirst someSecond
  have sameFirst := source first someFirst
  have sameSecond := source second someSecond
  rw [sameFirst] at someFirst ⊢
  rw [sameSecond] at someSecond ⊢
  exact apart someFirst someSecond

/-- An entry in the middle of a list is in nobody else's way. -/
theorem single_middle {front back : List Grant} :
    Single (front ++ grant :: back) ↔
      (∀ other ∈ front ++ back, grant.rights ≠ 0 → other.rights ≠ 0 → grant.pid ≠ other.pid) ∧
        Single (front ++ back) := by
  rw [Single, pairwise_middle, pairwise_cons, Single]
  intro first second apart someSecond someFirst
  exact (apart someFirst someSecond).symm

/--
How a grant changes an access list: the target's entry is gone or there is one with the new
rights, and everyone else keeps what they had.
-/
theorem Granted.single {rights : UInt32} (granted : Granted grants after target rights)
    (single : Single grants) :
    Single after ∧ ∀ grant ∈ after, grant.rights ≠ 0 →
      (grant.pid = target ∧ grant.rights = rights) ∨ (grant.pid ≠ target ∧ grant ∈ grants) := by
  rcases granted with ⟨_, rfl⟩ | ⟨some_, changed | ⟨absent, added⟩⟩
  · refine ⟨single.revoke target, ?_⟩
    intro grant member holds
    have other := mem_revoke member holds
    exact .inr ⟨other.2, other.1⟩
  · -- The target had an entry, whose rights are replaced.
    obtain ⟨front, old, back, rfl, theirs, rfl⟩ := replaceFirst_eq_some changed
    simp only [Bool.and_eq_true, bne_iff_ne, beq_iff_eq] at theirs
    obtain ⟨apart, rest⟩ := single_middle.mp single
    refine ⟨single_middle.mpr ⟨fun other member _ => apart other member theirs.1, rest⟩, ?_⟩
    intro grant member holds
    rcases mem_append.mp member with before | here
    · right
      have inside : grant ∈ front ++ back := mem_append_left _ before
      refine ⟨?_, mem_append_left _ before⟩
      rw [← theirs.2]
      exact (apart grant inside theirs.1 holds).symm
    rcases mem_cons.mp here with rfl | after
    · exact .inl ⟨theirs.2, rfl⟩
    right
    have inside : grant ∈ front ++ back := mem_append_right _ after
    refine ⟨?_, mem_append_right _ (mem_cons_of_mem _ after)⟩
    rw [← theirs.2]
    exact (apart grant inside theirs.1 holds).symm
  · -- The target had none, and an empty entry becomes its own.
    have stranger : ∀ grant ∈ grants, grant.rights ≠ 0 → grant.pid ≠ target := by
      intro grant member holds theirs
      have miss := replaceFirst_eq_none absent member
      simp [holds, theirs] at miss
    obtain ⟨front, old, back, rfl, _, rfl⟩ := replaceFirst_eq_some added
    obtain ⟨_, rest⟩ := single_middle.mp single
    have others : ∀ grant ∈ front ++ back, grant ∈ front ++ old :: back := by
      intro grant member
      rcases mem_append.mp member with before | after
      · exact mem_append_left _ before
      · exact mem_append_right _ (mem_cons_of_mem _ after)
    refine ⟨single_middle.mpr ⟨?_, rest⟩, ?_⟩
    · intro other member _ holds
      exact (stranger other (others other member) holds).symm
    intro grant member holds
    rcases mem_append.mp member with before | here
    · have old := others grant (mem_append_left _ before)
      exact .inr ⟨stranger grant old holds, old⟩
    · rcases mem_cons.mp here with rfl | after
      · exact .inl ⟨rfl, rfl⟩
      · have old := others grant (mem_append_right _ after)
        exact .inr ⟨stranger grant old holds, old⟩

end Shm

end NovaOs
