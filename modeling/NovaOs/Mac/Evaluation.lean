import NovaOs.Mac.System

/-! What asking a stack of profiles, loading one and adding one to a stack come to. -/

namespace NovaOs.Confine

open List

namespace Mac

variable {mac : Mac} {allowed : Policy → Bool} {id : UInt16} {i : Fin maxProfiles}

/-- A stack entry names a slot by its number, and only while the slot is in use. -/
theorem slotOf?_eq_some :
    mac.slotOf? id = some i ↔ id = idOf i ∧ (mac.slots i).inUse = true := by
  have small : i.val < 32 := i.isLt
  constructor
  · intro named
    unfold slotOf? at named
    split at named
    · rename_i inside
      dsimp only at named
      split at named
      · rename_i used
        cases named
        refine ⟨?_, used⟩
        -- One less and one more is the same number again.
        apply UInt16.toNat.inj
        have width : id.toNat < 65536 := id.toNat_lt
        simp only [idOf, UInt16.toNat_ofNat']
        omega
      · cases named
    · cases named
  · rintro ⟨rfl, used⟩
    have number : (idOf i).toNat = i.val + 1 := by
      simp only [idOf, UInt16.toNat_ofNat']
      omega
    have inside : 0 < (idOf i).toNat ∧ (idOf i).toNat ≤ maxProfiles := by
      rw [number]
      exact ⟨Nat.succ_pos _, i.isLt⟩
    have same : (⟨(idOf i).toNat - 1, by omega⟩ : Fin maxProfiles) = i := by
      apply Fin.ext
      simp [number]
    unfold slotOf?
    rw [dif_pos inside]
    dsimp only
    rw [same, if_pos used]

/-- A stack entry that names nothing, or an enforcing profile that does not allow. -/
def Denies (mac : Mac) (allowed : Policy → Bool) (id : UInt16) : Prop :=
  ∀ i, mac.slotOf? id = some i →
    allowed (mac.slots i).policy = false ∧ (mac.slots i).policy.complain = false

/-- Two tables with the same profiles; the counters may differ. -/
structure Alike (before after : Mac) : Prop where
  frozen : after.frozen = before.frozen
  inUse : ∀ i, (after.slots i).inUse = (before.slots i).inUse
  name : ∀ i, (after.slots i).name = (before.slots i).name
  policy : ∀ i, (after.slots i).policy = (before.slots i).policy

theorem Alike.refl (mac : Mac) : Alike mac mac :=
  ⟨rfl, fun _ => rfl, fun _ => rfl, fun _ => rfl⟩

theorem Alike.trans {one two three : Mac} (first : Alike one two) (second : Alike two three) :
    Alike one three where
  frozen := second.frozen.trans first.frozen
  inUse i := (second.inUse i).trans (first.inUse i)
  name i := (second.name i).trans (first.name i)
  policy i := (second.policy i).trans (first.policy i)

theorem Alike.slotOf? {after : Mac} (alike : Alike mac after) (id : UInt16) :
    after.slotOf? id = mac.slotOf? id := by
  unfold Mac.slotOf?
  split
  · dsimp only
    rw [alike.inUse]
  · rfl

theorem Alike.denies {after : Mac} (alike : Alike mac after) (allowed : Policy → Bool)
    (id : UInt16) : after.Denies allowed id ↔ mac.Denies allowed id := by
  unfold Denies
  simp only [alike.slotOf?, alike.policy]

/-- One slot is changed, but not its profile. -/
theorem Alike.ofSlots {later : Mac} {s : Slot}
    (slots : later.slots = Function.update mac.slots i s) (frozen : later.frozen = mac.frozen)
    (inUse : s.inUse = (mac.slots i).inUse) (name : s.name = (mac.slots i).name)
    (policy : s.policy = (mac.slots i).policy) : Alike mac later := by
  refine ⟨frozen, ?_, ?_, ?_⟩ <;>
  · intro j
    rw [slots]
    by_cases here : j = i
    · subst here
      rw [Function.update_self]
      assumption
    · rw [Function.update_of_ne here]

/-- Asking changes only counters, and a refusal means that some entry of the stack refuses. -/
theorem evalLoop_spec (kind : Kind) (pid : Int) (a b : UInt32) (allowed : Policy → Bool)
    (ids : List UInt16) (firstComplain : UInt16) (mac : Mac) :
    Alike mac (evalLoop kind pid a b allowed ids firstComplain mac).2 ∧
      ((evalLoop kind pid a b allowed ids firstComplain mac).1 < 0 ↔
        ∃ id ∈ ids, mac.Denies allowed id) := by
  induction ids generalizing firstComplain mac with
  | nil =>
    refine ⟨⟨rfl, fun _ => rfl, fun _ => rfl, fun _ => rfl⟩, ?_⟩
    simp [evalLoop]
  | cons id ids ih =>
    -- The answer of the rest of the stack, once this entry has let the action pass.
    have rest {later : Mac} (alike : Alike mac later) (fc : UInt16)
        (passes : ¬ mac.Denies allowed id) :
        Alike mac (evalLoop kind pid a b allowed ids fc later).2 ∧
          ((evalLoop kind pid a b allowed ids fc later).1 < 0 ↔
            ∃ other ∈ id :: ids, mac.Denies allowed other) := by
      obtain ⟨onward, refused⟩ := ih fc later
      refine ⟨alike.trans onward, refused.trans ?_⟩
      simp only [alike.denies, exists_mem_cons_iff, passes, false_or]
    unfold evalLoop
    split
    · rename_i nothing
      refine ⟨⟨rfl, fun _ => rfl, fun _ => rfl, fun _ => rfl⟩, ?_⟩
      have denies : mac.Denies allowed id := by
        intro i named
        rw [nothing] at named
        cases named
      have negative : -denierInvalid < 0 := by decide
      exact ⟨fun _ => ⟨id, mem_cons_self, denies⟩, fun _ => negative⟩
    rename_i i named
    dsimp only
    split
    · rename_i allows
      refine rest ?_ firstComplain ?_
      · exact .ofSlots rfl rfl rfl rfl rfl
      · intro denies
        rw [(denies i named).1] at allows
        cases allows
    split
    · rename_i complains
      refine rest ?_ _ ?_
      · exact .ofSlots rfl rfl rfl rfl rfl
      · intro denies
        rw [(denies i named).2] at complains
        cases complains
    rename_i refuses enforces
    refine ⟨.ofSlots rfl rfl rfl rfl rfl, ?_⟩
    have denies : mac.Denies allowed id := by
      intro j named'
      rw [named] at named'
      cases named'
      exact ⟨by simpa using refuses, by simpa using enforces⟩
    have positive : 0 < id.toNat := by
      rw [(slotOf?_eq_some.mp named).1]
      simp only [idOf, UInt16.toNat_ofNat']
      have small : i.val < 32 := i.isLt
      omega
    exact ⟨fun _ => ⟨id, mem_cons_self, denies⟩, fun _ => by omega⟩

/-- The same for a whole stack; one that is too deep is refused everything. -/
theorem eval_spec (mac : Mac) (stack : List UInt16) (kind : Kind) (pid : Int) (a b : UInt32)
    (allowed : Policy → Bool) :
    Alike mac (mac.eval stack kind pid a b allowed).2 ∧
      ((mac.eval stack kind pid a b allowed).1 < 0 ↔
        stack.length > maxStack ∨ ∃ id ∈ stack, mac.Denies allowed id) := by
  unfold eval
  split
  · rename_i empty
    rw [isEmpty_iff.mp empty]
    exact ⟨.refl mac, by simp [maxStack]⟩
  split
  · rename_i deep
    refine ⟨⟨rfl, fun _ => rfl, fun _ => rfl, fun _ => rfl⟩, ?_⟩
    have negative : -denierInvalid < 0 := by decide
    exact ⟨fun _ => Or.inl deep, fun _ => negative⟩
  · rename_i shallow
    obtain ⟨alike, refused⟩ := evalLoop_spec kind pid a b allowed stack 0 mac
    exact ⟨alike, by simp [refused, shallow]⟩

/-- A load is refused, finds the very same profile, or takes a free slot before the freeze. -/
theorem load_cases (mac : Mac) (name text : List UInt8) :
    (∃ error, mac.load name text = (.error error, mac)) ∨
    ∃ i policy, parse text = .ok policy ∧
      (((mac.slots i).inUse = true ∧ (mac.slots i).name = name ∧ (mac.slots i).policy = policy ∧
        mac.load name text = (.ok (idOf i), mac)) ∨
      (mac.frozen = false ∧ (mac.slots i).inUse = false ∧
        mac.load name text = (.ok (idOf i),
          mac.setSlot i { inUse := true, name := name, policy := policy }))) := by
  unfold load
  split
  · exact .inl ⟨_, rfl⟩
  split
  · exact .inl ⟨_, rfl⟩
  rename_i policy read
  split
  · rename_i i found
    have passed := Table.first?_eq_some found
    simp only [Bool.and_eq_true, beq_iff_eq] at passed
    exact .inr ⟨i, policy, read, Or.inl ⟨passed.1.1, passed.1.2, passed.2, rfl⟩⟩
  split
  · exact .inl ⟨_, rfl⟩
  rename_i warm
  split
  · exact .inl ⟨_, rfl⟩
  · rename_i i found
    have free := Table.first?_eq_some found
    simp only [Bool.not_eq_true'] at free
    exact .inr ⟨i, policy, read, Or.inr ⟨by simpa using warm, free, rfl⟩⟩

/-- The stack of a started program is its spawner's, with at most one entry more. -/
theorem execStack_ok {parent stack : List UInt16} {newId : UInt16}
    (ok : execStack parent newId = .ok stack) :
    stack.length ≤ maxStack ∧ parent <+: stack ∧
      ∀ id ∈ stack, id ∈ parent ∨ (id = newId ∧ newId ≠ 0) := by
  unfold execStack at ok
  split at ok
  · cases ok
  rename_i shallow
  split at ok
  · rename_i fresh
    simp only [Bool.and_eq_true, bne_iff_ne, ne_eq] at fresh
    split at ok
    · cases ok
    rename_i room
    cases ok
    refine ⟨by simp; omega, prefix_append _ _, ?_⟩
    intro id member
    rcases mem_append.mp member with old | new
    · exact .inl old
    · exact .inr ⟨mem_singleton.mp new, fresh.1⟩
  · cases ok
    exact ⟨by omega, prefix_rfl, fun id member => Or.inl member⟩

end Mac

/-- What an action needs of a policy. -/
def Action.allowedBy : Action → Policy → Bool
  | .syscall sysno, policy => policy.allowsSyscall sysno
  | .file name op, policy =>
    !(Mac.checkedName name).isEmpty && policy.allowsFile (Mac.checkedName name) op
  | .net op ip port, policy => policy.allowsNet op ip port
  | .exec name, policy =>
    !(Mac.checkedName name).isEmpty && policy.allowsExec (Mac.checkedName name)

/-- Every kind of question is put to the stack in the same way. -/
theorem Mac.check_spec (mac : Mac) (stack : List UInt16) (pid : Pid) (action : Action) :
    Alike mac (mac.check stack pid action).2 ∧
      ((mac.check stack pid action).1 < 0 ↔
        stack.length > maxStack ∨ ∃ id ∈ stack, mac.Denies action.allowedBy id) := by
  cases action with
  | syscall sysno | file name op | net op ip port | exec name => exact mac.eval_spec stack _ _ _ _ _

end NovaOs.Confine
