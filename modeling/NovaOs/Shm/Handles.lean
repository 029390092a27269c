import NovaOs.Shm.Atomic
import Mathlib.Algebra.Group.Nat.Defs

/-! What a handle resolves to, over any history of objects created and freed in its slot. -/

namespace NovaOs

variable {gen : UInt32}

open Function ShmSystem

/-- How many generations a slot goes through before one comes back. -/
def generationCycle : Nat := 2 ^ 24 - 1

/-- A generation that an object can have. -/
def ValidGen (gen : UInt32) : Prop := 0 < gen.toNat ∧ gen.toNat ≤ generationCycle

theorem masked_toNat (gen : UInt32) :
    ((gen + 1) &&& 0x00FFFFFF).toNat = (gen.toNat + 1) % 2 ^ 24 := by
  have mask : (0x00FFFFFF : UInt32).toNat = 2 ^ 24 - 1 := by decide
  have one : (1 : UInt32).toNat = 1 := by decide
  rw [UInt32.toNat_and, UInt32.toNat_add, mask, Nat.and_two_pow_sub_one_eq_mod, one]
  omega

/-- The next generation is counted within 24 bits, and zero is skipped. -/
theorem nextGen_eq :
    (nextGen gen).toNat
      = if (gen.toNat + 1) % 2 ^ 24 = 0 then 1 else (gen.toNat + 1) % 2 ^ 24 := by
  have masked := masked_toNat gen
  have none : (0 : UInt32).toNat = 0 := by decide
  simp only [nextGen]
  by_cases zero : (gen + 1) &&& 0x00FFFFFF = 0
  · rw [if_pos (by simpa using zero), if_pos (by rw [← masked, zero, none])]
    decide
  · have some : ((gen + 1) &&& 0x00FFFFFF).toNat ≠ 0 := by
      rw [← none]
      exact fun same => zero (UInt32.toNat_inj.mp same)
    rw [if_neg (by simpa using zero), if_neg (masked ▸ some), masked]

theorem nextGen_valid : ValidGen (nextGen gen) := by
  rw [ValidGen, nextGen_eq, generationCycle]
  split <;> omega

theorem nextGen_toNat (valid : ValidGen gen) :
    (nextGen gen).toNat = gen.toNat % generationCycle + 1 := by
  obtain ⟨low, high⟩ := valid
  rw [generationCycle] at high ⊢
  rw [nextGen_eq]
  split <;> omega

/-- The generation of a slot that was freed so many times since it had another one. -/
theorem nextGen_step {first : UInt32} {count : Nat} (valid : ValidGen gen)
    (aged : gen.toNat = (first.toNat - 1 + count) % generationCycle + 1) :
    (nextGen gen).toNat = (first.toNat - 1 + (count + 1)) % generationCycle + 1 := by
  rw [nextGen_toNat valid, aged, ← Nat.add_assoc, Nat.mod_add_mod]

/-- What a call does to a slot, unless it creates an object there. -/
def Aged (before after : ShmObject) : Prop :=
  -- The slot keeps its object, or it stays free;
  (after.inUse = before.inUse ∧ after.gen = before.gen) ∨
  -- or its object is freed.
  (before.inUse = true ∧ after.inUse = false ∧ after.gen = nextGen before.gen)

theorem Aged.refl (object : ShmObject) : Aged object object := .inl ⟨rfl, rfl⟩

theorem Aged.trans {first second third : ShmObject} (earlier : Aged first second)
    (later : Aged second third) : Aged first third := by
  rcases earlier with ⟨used, gen⟩ | ⟨used, free, gen⟩
  · rw [Aged, ← used, ← gen]
    exact later
  -- A slot that was freed is not freed again.
  rcases later with ⟨same, gen'⟩ | ⟨used', -, -⟩
  · exact .inr ⟨used, same.trans free, gen'.trans gen⟩
  · rw [free] at used'
    cases used'

namespace Shm

variable {shm : Shm} {hal : Hal} {tables : PageTables} {slot : Fin maxObjects}

/-- Freeing what nothing can reach ages the slot, if it was in use. -/
theorem reap_aged (hal : Hal) (used : (shm.objects slot).inUse = true) (other : Fin maxObjects) :
    Aged (shm.objects other) ((shm.reap hal slot).1.objects other) := by
  rw [reap]
  split
  · obtain ⟨-, objects, -⟩ := freeObject_frame shm hal slot
    rw [objects]
    by_cases here : other = slot
    · subst here
      rw [update_self]
      exact .inr ⟨used, rfl, rfl⟩
    · rw [update_of_ne here]
      exact .refl _
  · exact .refl _

theorem foldl_reapInUse_aged (slots : List (Fin maxObjects)) (state : Shm × Hal)
    (slot : Fin maxObjects) :
    Aged (state.1.objects slot) ((slots.foldl reapInUse state).1.objects slot) := by
  induction slots generalizing state with
  | nil => exact .refl _
  | cons first rest ih =>
    have one : Aged (state.1.objects slot) ((reapInUse state first).1.objects slot) := by
      rw [reapInUse]
      split
      · rename_i used
        exact reap_aged state.2 used slot
      · exact .refl _
    exact one.trans (ih (reapInUse state first))

/-- An exit frees a slot once at most. -/
theorem processExit_aged (shm : Shm) (hal : Hal) (pid : Pid) (slot : Fin maxObjects) :
    Aged (shm.objects slot) ((shm.processExit hal pid).1.objects slot) := by
  rw [processExit]
  have dropped := (foldl_dropMapOf pid (List.finRange maxMapRecords) (shm.orphan pid)).objects slot
  generalize (List.finRange maxMapRecords).foldl (dropMapOf pid) (shm.orphan pid) = left
    at dropped ⊢
  have before : Aged (shm.objects slot) ((left.forgetGrants pid).objects slot) := by
    -- Marking, counting off and revoking leave the slot its object and generation.
    have marked : Aged (shm.objects slot) ((shm.orphan pid).objects slot) := by
      simp only [orphan]
      split
      · exact .inl ⟨rfl, rfl⟩
      · exact .refl _
    have counted : Aged ((shm.orphan pid).objects slot) (left.objects slot) := by
      rw [dropped]
      exact .inl ⟨rfl, rfl⟩
    refine (marked.trans counted).trans ?_
    simp only [forgetGrants]
    split
    · exact .inl ⟨rfl, rfl⟩
    · exact .refl _
  exact before.trans (foldl_reapInUse_aged _ _ slot)

/-- The handle that creation gives, and the object it put in the slot. -/
theorem create_handle {pid : Pid} {size bytes : Nat} {flags handle : UInt32}
    (created : (shm.create hal pid size flags).1 = .ok (handle, bytes)) :
    ∃ slot, (shm.objects slot).inUse = false
      ∧ handle = (shm.create hal pid size flags).2.1.handleFor slot
      ∧ ∃ pages, (shm.create hal pid size flags).2.1.objects
        = update shm.objects slot (shm.createdObject slot pid pages) := by
  simp only [create] at created ⊢
  split at created
  · cases created
  rename_i accepted
  rw [if_neg accepted]
  generalize (size + pageSize - 1) / pageSize = pages at created ⊢
  split at created
  · cases created
  rename_i slot found
  have free : (shm.objects slot).inUse = false := by simpa using Table.first?_eq_some found
  split at created
  · cases created
  rename_i mine
  rw [if_neg mine]
  split at created
  · cases created
  rename_i room
  rw [if_neg room]
  obtain ⟨⟨frames, same⟩, -⟩ := takeFrames_frame shm hal slot 0 pages
  generalize takeFrames shm hal slot 0 pages = taken at created same ⊢
  obtain ⟨ok, after, later⟩ := taken
  cases ok with
  | false => cases created
  | true =>
    cases created
    cases same
    exact ⟨slot, free, rfl, pages, rfl⟩

/-- Another entry for an object that keeps its use and its generation. -/
theorem setObject_aged {object : ShmObject} (used : object.inUse = (shm.objects slot).inUse)
    (gen : object.gen = (shm.objects slot).gen) (other : Fin maxObjects) :
    Aged (shm.objects other) ((shm.setObject slot object).objects other) := by
  simp only [setObject]
  by_cases here : other = slot
  · subst here
    rw [update_self]
    exact .inl ⟨used, gen⟩
  · rw [update_of_ne here]
    exact .refl _

section Word

variable {made : Shm} {slot other : Fin maxObjects}

variable (valid : ValidGen (made.objects slot).gen)

include valid

/-- A handle is the generation followed by a byte for the slot. -/
theorem handleFor_toNat :
    (made.handleFor slot).toNat = (made.objects slot).gen.toNat * 2 ^ 8 + (slot.val + 1) := by
  have high := valid.2
  have small : slot.val < 32 := slot.isLt
  have index : (UInt32.ofNat slot.val + 1).toNat = slot.val + 1 := by
    have one : (1 : UInt32).toNat = 1 := by decide
    rw [UInt32.toNat_add, UInt32.toNat_ofNat']
    omega
  have eight : (8 : UInt32).toNat % 32 = 8 := by decide
  rw [generationCycle] at high
  rw [handleFor, UInt32.toNat_or, UInt32.toNat_shiftLeft, index, eight,
    Nat.mod_eq_of_lt (by rw [Nat.shiftLeft_eq]; omega), ← Nat.shiftLeft_add_eq_or_of_lt (by omega),
    Nat.shiftLeft_eq]

theorem handleFor_slot : (made.handleFor slot &&& 0xFF).toNat = slot.val + 1 := by
  have small : slot.val < 32 := slot.isLt
  have mask : (0xFF : UInt32).toNat = 2 ^ 8 - 1 := by decide
  rw [UInt32.toNat_and, mask, Nat.and_two_pow_sub_one_eq_mod, handleFor_toNat valid]
  omega

theorem handleFor_gen : made.handleFor slot >>> 8 = (made.objects slot).gen := by
  have small : slot.val < 32 := slot.isLt
  have eight : (8 : UInt32).toNat % 32 = 8 := by decide
  apply UInt32.toNat_inj.mp
  rw [UInt32.toNat_shiftRight, eight, Nat.shiftRight_eq_div_pow, handleFor_toNat valid]
  omega

/-- A handle resolves exactly where its slot holds a live object of its generation. -/
theorem lookup_handleFor :
    shm.lookup (made.handleFor slot)
      = if (shm.objects slot).inUse = true ∧ (shm.objects slot).dying = false
          ∧ (shm.objects slot).gen = (made.objects slot).gen then .ok slot else .error .ebadf := by
  have small : slot.val < 32 := slot.isLt
  have named : (made.objects slot).gen ≠ 0 := by
    intro zero
    have positive := valid.1
    rw [zero] at positive
    exact absurd positive (by decide)
  have within : ¬ (slot.val + 1 = 0 ∨ maxObjects < slot.val + 1 ∨ (made.objects slot).gen = 0) := by
    have bound : maxObjects = 32 := rfl
    exact fun bad => bad.elim (by omega) fun rest => rest.elim (by omega) named
  simp only [lookup, handleFor_slot valid, handleFor_gen valid, dif_neg within, Nat.add_sub_cancel]
  cases (shm.objects slot).inUse <;> cases (shm.objects slot).dying <;> simp

end Word

end Shm

namespace ShmSystem

variable {system : ShmSystem} {count : Nat}

/-- Whether a call frees the object in a slot. -/
def freed (system : ShmSystem) (slot : Fin maxObjects) (op : ShmOp) : Bool :=
  (system.shm.objects slot).inUse && !((system.step op).shm.objects slot).inUse

/-- How often a slot is freed in a history. -/
def frees (slot : Fin maxObjects) : ShmSystem → List ShmOp → Nat
  | _, [] => 0
  | system, op :: rest => (if system.freed slot op then 1 else 0) + frees slot (system.step op) rest

/-- What one call does to a slot: it ages, or it gets an object of its next generation. -/
theorem step_slot (accounted : Accounted system) (op : ShmOp) (slot : Fin maxObjects) :
    Aged (system.shm.objects slot) ((system.step op).shm.objects slot) ∨
      (system.shm.objects slot).inUse = false ∧ ((system.step op).shm.objects slot).inUse = true ∧
        ((system.step op).shm.objects slot).gen
          = if (system.shm.objects slot).gen == 0 then 1 else (system.shm.objects slot).gen := by
  obtain ⟨shm, hal⟩ := system
  have ⟨⟨books, frames, backed⟩, reaped, owners⟩ := accounted
  simp only at books
  cases op with
  | spawn pid =>
    simp only [step]
    split <;> exact .inl (.refl _)
  | create pid size flags =>
    simp only [step]
    split
    · obtain ⟨errno, same⟩ | ⟨at_, pages, free, -, -, -, ⟨-, errno, same⟩ | ⟨-, handle, same⟩⟩ :=
        shm.create_cases hal pid size flags
      · rw [same]
        exact .inl (.refl _)
      · obtain ⟨⟨frames, objects⟩, -⟩ := Shm.takeFrames_frame shm hal at_ 0 pages
        rw [same, objects]
        exact .inl (.refl _)
      obtain ⟨⟨frames, objects⟩, -⟩ := Shm.takeFrames_frame shm hal at_ 0 pages
      simp only [same, objects, Shm.setObject, Shm.withFrames]
      by_cases here : slot = at_
      · subst here
        rw [update_self]
        exact .inr ⟨free, rfl, rfl⟩
      · rw [update_of_ne here]
        exact .inl (.refl _)
    · exact .inl (.refl _)
  | grant caller handle target rights =>
    simp only [step]
    left
    split
    · obtain ⟨errno, same⟩ | ⟨at_, grants, -, -, -, -, -, same⟩ :=
        shm.grant_cases hal caller handle target rights
      · rw [same]
        exact .refl _
      · rw [same]
        apply Shm.setObject_aged
        · rfl
        · rfl
    · exact .refl _
  | map pid handle want =>
    simp only [step]
    left
    split
    · obtain ⟨errno, same⟩ | ⟨at_, free, addr, -, -, -, -, -, -, -,
          ⟨-, errno, same⟩ | ⟨-, placed, same⟩⟩ := shm.map_cases hal pid handle want
      · rw [same]
        exact .refl _
      · rw [same]
        exact .refl _
      · rw [same]
        apply @Shm.setObject_aged (shm.setMap free (shm.mappedRecord at_ pid addr want)) at_
        · rfl
        · rfl
    · exact .refl _
  | unmap pid addr =>
    simp only [step]
    left
    split
    · obtain ⟨errno, same⟩ | ⟨index, used, -, -, same⟩ := shm.unmap_cases hal pid addr
      · rw [same]
        exact .refl _
      rw [same]
      have named := (books.named index used).1
      have counted : ∀ other, Aged (shm.objects other) ((shm.dropMap index).objects other) :=
        @Shm.setObject_aged (shm.setMap index emptyMap) _ _ rfl rfl
      refine (counted slot).trans (Shm.reap_aged _ ?_ slot)
      simpa [Shm.dropMap, Shm.setObject] using named
    · exact .refl _
  | destroy pid handle =>
    simp only [step]
    left
    split
    · obtain ⟨errno, same⟩ | ⟨at_, found, -, same⟩ := shm.destroy_cases hal pid handle
      · rw [same]
        exact .refl _
      rw [same]
      have marked : Aged (shm.objects slot)
          ((shm.setObject at_ { shm.objects at_ with dying := true }).objects slot) := by
        apply Shm.setObject_aged
        · rfl
        · rfl
      refine marked.trans (Shm.reap_aged hal ?_ slot)
      simpa [Shm.setObject] using (Shm.lookup_ok found).1
    · exact .refl _
  | processExit pid =>
    simp only [step]
    left
    split
    · have aged := Shm.processExit_aged shm hal pid slot
      generalize shm.processExit hal pid = outcome at aged ⊢
      exact aged
    · exact .refl _
  | fork parent child =>
    simp only [step]
    left
    split
    · rename_i usable
      simp only [Bool.and_eq_true, Bool.not_eq_true'] at usable
      have fresh : child ≠ parent := by
        intro same
        rw [same, usable.1] at usable
        cases usable.2
      simp only [fork]
      split
      · exact .refl _
      obtain ⟨errno, same⟩ | ⟨after, same, forked⟩ :=
        Shm.fork_cases books fresh (accounted.unborn usable.2).1
      · simp only [same]
        exact .refl _
      · simp only [same]
        rw [forked.objects slot]
        exact .inl ⟨rfl, rfl⟩
    · exact .refl _

/-- No generation outgrows its 24 bits. -/
theorem run_bounded (accounted : Accounted system) (ops : List ShmOp)
    (bounded : ∀ slot, (system.shm.objects slot).gen.toNat ≤ generationCycle)
    (slot : Fin maxObjects) : ((system.run ops).shm.objects slot).gen.toNat ≤ generationCycle := by
  induction ops generalizing system with
  | nil => exact bounded slot
  | cons op rest ih =>
    apply ih (accounted.step op)
    intro slot
    rcases step_slot accounted op slot with (⟨-, gen⟩ | ⟨-, -, gen⟩) | ⟨-, -, gen⟩
    · rw [gen]
      exact bounded slot
    · rw [gen]
      exact (nextGen_valid).2
    · rw [gen]
      split
      · decide
      · exact bounded slot

/-- The generation of a slot counts how often the slot was freed. -/
theorem run_gen (accounted : Accounted system) (slot : Fin maxObjects) {first : UInt32}
    (aged : (system.shm.objects slot).gen.toNat = (first.toNat - 1 + count) % generationCycle + 1)
    (ops : List ShmOp) :
    ((system.run ops).shm.objects slot).gen.toNat
      = (first.toNat - 1 + (count + frees slot system ops)) % generationCycle + 1 := by
  induction ops generalizing system count with
  | nil => exact aged
  | cons op rest ih =>
    have valid : ValidGen (system.shm.objects slot).gen := by
      have below := Nat.mod_lt (first.toNat - 1 + count) (show 0 < generationCycle by decide)
      exact ⟨by omega, by omega⟩
    rw [frees, ← Nat.add_assoc count]
    apply ih (accounted.step op)
    rcases step_slot accounted op slot with (⟨used, gen⟩ | ⟨used, free, gen⟩) | ⟨free, -, gen⟩
    · have kept : system.freed slot op = false := by
        rw [freed, used]
        cases (system.shm.objects slot).inUse <;> rfl
      rw [kept, gen]
      exact aged
    · have lost : system.freed slot op = true := by rw [freed, used, free]; rfl
      rw [lost, gen]
      exact nextGen_step valid aged
    -- A slot that has a generation already gives it to its next object.
    have kept : system.freed slot op = false := by rw [freed, free]; rfl
    have named : ((system.shm.objects slot).gen == 0) = false := by
      apply beq_eq_false_iff_ne.mpr
      intro zero
      have positive := valid.1
      rw [zero] at positive
      exact absurd positive (by decide)
    rw [kept, gen, named]
    exact aged

/-- The generation of a slot freed less often than there are generations is another one. -/
theorem cycle_injective {first : Nat} (low : 0 < first) (high : first ≤ generationCycle)
    (few : count < generationCycle) (same : (first - 1 + count) % generationCycle + 1 = first) :
    count = 0 := by
  rcases Nat.lt_or_ge (first - 1 + count) generationCycle with below | above
  · rw [Nat.mod_eq_of_lt below] at same
    omega
  · rw [Nat.mod_eq_sub_mod above, Nat.mod_eq_of_lt (by omega)] at same
    omega

/--
A handle that creation gave resolves to its own object, and it never resolves to another one while
its slot has been freed less often than there are generations; once the slot has been freed it
resolves to nothing.
-/
theorem handle_resolves_once (hal : Hal) (ops : List ShmOp) {pid : Pid} {size bytes : Nat}
    {flags handle : UInt32} (living : ((boot hal).run ops).hal.live pid = true)
    (created : (((boot hal).run ops).shm.create ((boot hal).run ops).hal pid size flags).1
      = .ok (handle, bytes)) :
    ∃ slot, (((boot hal).run ops).step (.create pid size flags)).shm.lookup handle = .ok slot
      ∧ ∀ more, frees slot (((boot hal).run ops).step (.create pid size flags)) more < 2 ^ 24 - 1 →
        (∀ other, ((((boot hal).run ops).step (.create pid size flags)).run more).shm.lookup handle
            = .ok other →
          other = slot ∧ frees slot (((boot hal).run ops).step (.create pid size flags)) more = 0)
        ∧ (0 < frees slot (((boot hal).run ops).step (.create pid size flags)) more →
          ((((boot hal).run ops).step (.create pid size flags)).run more).shm.lookup handle
            = .error .ebadf) := by
  have accounted := (Accounted.boot hal).run ops
  have bounded := run_bounded (Accounted.boot hal) ops fun slot => Nat.zero_le _
  have after := accounted.step (.create pid size flags)
  generalize (boot hal).run ops = system at accounted bounded after living created ⊢
  obtain ⟨slot, free, named, pages, objects⟩ := Shm.create_handle created
  have state : (system.step (.create pid size flags)).shm
      = (system.shm.create system.hal pid size flags).2.1 := by
    simp only [step, living, if_true]
  rw [← state] at named objects
  generalize system.step (.create pid size flags) = start at after named objects ⊢
  have object : start.shm.objects slot = system.shm.createdObject slot pid pages := by
    rw [objects, update_self]
  have valid : ValidGen (start.shm.objects slot).gen := by
    have high := bounded slot
    rw [object]
    simp only [Shm.createdObject]
    split
    · exact ⟨by decide, by decide⟩
    · rename_i some
      refine ⟨Nat.pos_of_ne_zero fun zero => some ?_, high⟩
      simpa using UInt32.toNat_inj.mp zero
  have first : (start.shm.objects slot).gen.toNat
      = ((start.shm.objects slot).gen.toNat - 1 + 0) % generationCycle + 1 := by
    rw [Nat.add_zero, Nat.mod_eq_of_lt (by have := valid.1; have := valid.2; omega)]
    have := valid.1
    omega
  refine ⟨slot, ?_, fun more few => ?_⟩
  · rw [named, Shm.lookup_handleFor valid, if_pos]
    rw [object]
    exact ⟨rfl, rfl, rfl⟩
  -- With fewer frees than generations, the same generation means that there was none.
  have gens := run_gen after slot first more
  rw [Nat.zero_add] at gens
  have once : ((start.run more).shm.objects slot).gen = (start.shm.objects slot).gen →
      frees slot start more = 0 := by
    intro same
    rw [same] at gens
    exact cycle_injective valid.1 valid.2 few gens.symm
  rw [named, Shm.lookup_handleFor valid]
  constructor
  · intro other found
    split at found
    · rename_i live
      cases found
      exact ⟨rfl, once live.2.2⟩
    · cases found
  · intro gone
    rw [if_neg]
    intro live
    exact absurd (once live.2.2) (Nat.ne_of_gt gone)

/-- The first object ever created, by the one running process. -/
theorem handle_resolves_once_first :
    ∃ slot, (((boot scarceHal).run []).step (.create 1 4096 0)).shm.lookup 257 = .ok slot
      ∧ ∀ more, frees slot (((boot scarceHal).run []).step (.create 1 4096 0)) more < 2 ^ 24 - 1 →
        (∀ other, ((((boot scarceHal).run []).step (.create 1 4096 0)).run more).shm.lookup 257
            = .ok other →
          other = slot ∧ frees slot (((boot scarceHal).run []).step (.create 1 4096 0)) more = 0)
        ∧ (0 < frees slot (((boot scarceHal).run []).step (.create 1 4096 0)) more →
          ((((boot scarceHal).run []).step (.create 1 4096 0)).run more).shm.lookup 257
            = .error .ebadf) := by
  have given :
    (((boot scarceHal).run []).shm.create ((boot scarceHal).run []).hal 1 4096 0).1.toOption
      = some (257, 4096) := by decide
  have created : (((boot scarceHal).run []).shm.create ((boot scarceHal).run []).hal 1 4096 0).1
      = .ok (257, 4096) := by
    generalize (((boot scarceHal).run []).shm.create ((boot scarceHal).run []).hal 1 4096 0).1
      = answer at given ⊢
    cases answer with
    | error errno => cases given
    | ok pair => rw [Option.some.inj given]
  exact handle_resolves_once scarceHal [] (by decide) created

end ShmSystem

end NovaOs
