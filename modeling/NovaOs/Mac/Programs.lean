import NovaOs.Mac.Names

/-! Programs and the profiles named after them. -/

namespace NovaOs.Confine

open List

-- One byte more than a profile may have, so that a longer one is not mistaken for its beginning.
def profileBufSize : Nat := 4097

/-- What the file system hands out of a volume, given the contents of its entries. -/
def readsFrom (files : Bytes → Option Bytes) (name : Bytes) : Option Bytes :=
  (files (Fat.toFat83 name)).map (·.take profileBufSize)

/-- The entry of the profile that is named after a program. -/
def profileEntry (path : Bytes) : Bytes :=
  (Fat.toFat83 path).take 8 ++ ascii "MAC"

theorem takeWhile_take (p : UInt8 → Bool) {width : Nat} {text : Bytes} :
    (text.take width).takeWhile p = (text.takeWhile p).take width := by
  induction text generalizing width with
  | nil => simp
  | cons c rest ih =>
    cases width with
    | zero => simp
    | succ width =>
      by_cases passes : p c = true
      · simp [passes, ih]
      · simp [passes]

/-- The file asked for is the profile of the program, however the program's name is spelled. -/
theorem profile_name {path : Bytes} :
    Fat.toFat83 (path.takeWhile (· != 46) ++ ascii ".MAC") = profileEntry path := by
  have plain : ∀ c ∈ path.takeWhile (· != 46), (c != 46) = true :=
    fun c member => mem_takeWhile_imp (p := fun b : UInt8 => b != 46) member
  have before : (path.takeWhile (· != 46) ++ ascii ".MAC").takeWhile (· != 46)
      = path.takeWhile (· != 46) := by
    rw [takeWhile_append_of_pos plain, show (ascii ".MAC").takeWhile (· != 46) = [] by decide,
      append_nil]
  have behind : (path.takeWhile (· != 46) ++ ascii ".MAC").dropWhile (· != 46) = ascii ".MAC" := by
    rw [dropWhile_append_of_pos plain]
    decide
  rw [profileEntry, toFat83_take, Fat.toFat83, before, behind]
  rfl

/-- A profile that was looked up is on the stack. -/
theorem Mac.execStack_mem {parent stack : List UInt16} {newId : UInt16} (named : newId ≠ 0)
    (ok : Mac.execStack parent newId = .ok stack) : newId ∈ stack := by
  unfold Mac.execStack at ok
  split at ok
  · cases ok
  split at ok
  · split at ok
    · cases ok
    · cases ok
      simp
  · rename_i known
    cases ok
    simpa [named] using known

/-- Loading a profile leaves it in a slot of its own. -/
theorem System.load_ok {system after : System} {name text : List UInt8} {id : UInt16}
    (loaded : system.load name text = (.ok id, after)) :
    id ≠ 0 ∧ ∃ i, after.mac.slotOf? id = some i ∧ (after.mac.slots i).name = name ∧
      parse text = .ok (after.mac.slots i).policy := by
  have numbered : ∀ i : Fin maxProfiles, Mac.idOf i ≠ 0 := by
    intro i zero
    have small : i.val < 32 := i.isLt
    have number := congrArg UInt16.toNat zero
    simp only [Mac.idOf, UInt16.toNat_ofNat', UInt16.toNat_zero] at number
    omega
  simp only [System.load] at loaded
  rcases system.mac.load_cases name text with
    ⟨error, failed⟩ | ⟨i, policy, read, ⟨used, same, kept, found⟩ | ⟨_, _, found⟩⟩
  · rw [failed] at loaded
    cases loaded
  · rw [found] at loaded
    cases loaded
    exact ⟨numbered i, i, Mac.slotOf?_eq_some.mpr ⟨rfl, used⟩, same, by rw [read, kept]⟩
  rw [found] at loaded
  cases loaded
  refine ⟨numbered i, i, Mac.slotOf?_eq_some.mpr ⟨rfl, ?_⟩, ?_, ?_⟩
  · simp [Mac.setSlot]
  · simp [Mac.setSlot]
  · simpa [Mac.setSlot] using read

/-- The copy of a path keeps the base name, unless that is too long for a profile. -/
theorem copyPath_base {isUser : Bool} {path copy : List UInt8}
    (copied : copyPath isUser path = some copy)
    (short : (path.takeWhile (· != 46)).length ≤ 8) :
    baseOf copy = path.takeWhile (· != 46) := by
  have base : copy.takeWhile (· != 46) = path.takeWhile (· != 46) := by
    simp only [copyPath] at copied
    split at copied
    · split at copied
      · cases copied
        rfl
      · cases copied
    · cases copied
      rw [takeWhile_take]
      exact take_of_length_le (Nat.le_trans short (by decide))
  rw [baseOf, base]
  exact take_of_length_le (Nat.le_trans short (by decide))

/-- A program whose profile is on the volume starts under it, whatever the path, exactly if the
base name of the path is not empty and not longer than eight bytes. -/
theorem exec_under_profile (path : Bytes) :
    (∀ (system after : System) (spawner : Option (Pid × Proc)) (files : Bytes → Option Bytes)
        (text : Bytes) (stack : List UInt16),
      files (profileEntry path) = some text →
      system.macPrepareExec spawner (some path) (readsFrom files) = (some stack, after) →
        ∃ id ∈ stack, ∃ i, after.mac.slotOf? id = some i ∧
          (after.mac.slots i).name = path.takeWhile (· != 46) ∧
          parse (text.take profileBufSize) = .ok (after.mac.slots i).policy) ↔
      0 < (path.takeWhile (· != 46)).length ∧ (path.takeWhile (· != 46)).length ≤ 8 := by
  constructor
  · intro profiled
    by_contra outside
    -- Where no profile is looked up, the kernel starts the program without any.
    have unread : (baseOf (path.take (pathCap - 1))).length = 0 ∨
        8 < (baseOf (path.take (pathCap - 1))).length := by
      simp only [baseOf, takeWhile_take, length_take, nameLen, pathCap]
      omega
    have skipped : ((baseOf (path.take (pathCap - 1))).length != 0
        && decide ((baseOf (path.take (pathCap - 1))).length ≤ 8)) = false := by
      simp only [Bool.and_eq_false_iff, bne_eq_false_iff_eq, decide_eq_false_iff_not]
      omega
    have started : ({} : System).macPrepareExec none (some path) (readsFrom fun _ => some [])
        = (some [], {}) := by
      simp [System.macPrepareExec, copyPath, System.check, Mac.check, Mac.checkExec, Mac.eval,
        System.ownProfile, skipped, Mac.execStack]
    obtain ⟨id, member, _⟩ := profiled {} {} none (fun _ => some []) [] [] rfl started
    simp at member
  · rintro ⟨positive, short⟩ system after spawner files text stack present prepared
    simp only [System.macPrepareExec, Option.bind_some] at prepared
    split at prepared
    · cases prepared
    rename_i copy copied
    have base := copyPath_base copied short
    split at prepared
    · cases prepared
    -- The profile is looked up under the base name, and found.
    have asked : (baseOf copy).length != 0 && decide ((baseOf copy).length ≤ 8) := by
      rw [base]
      simp only [Bool.and_eq_true, bne_iff_ne, decide_eq_true_eq]
      omega
    have found : readsFrom files (baseOf copy ++ ascii ".MAC")
        = some (text.take profileBufSize) := by
      rw [base, readsFrom, profile_name, present]
      rfl
    simp only [System.ownProfile, asked, if_true, found] at prepared
    split at prepared
    · cases prepared
    rename_i newId loaded read
    split at prepared
    · cases prepared
    rename_i stack ok
    cases prepared
    obtain ⟨named, i, slot, name, policy⟩ := System.load_ok read
    exact ⟨newId, Mac.execStack_mem named ok, i, slot, name.trans base, policy⟩

/-- A volume with a profile for the program EDITORPR. -/
def editorVolume (raw : Bytes) : Option Bytes :=
  if raw = ascii "EDITORPRMAC" then some (ascii "allow syscall write\n") else none

theorem exec_under_profile_editor :
    ∃ id ∈ ([1] : List UInt16), ∃ i,
      (System.macPrepareExec {} none (some (ascii "editorpr.elf"))
        (readsFrom editorVolume)).2.mac.slotOf? id = some i ∧
      ((System.macPrepareExec {} none (some (ascii "editorpr.elf"))
        (readsFrom editorVolume)).2.mac.slots i).name = ascii "editorpr" := by
  have spelled := (exec_under_profile (ascii "editorpr.elf")).mpr (by decide)
  have started : (System.macPrepareExec {} none (some (ascii "editorpr.elf"))
      (readsFrom editorVolume)).1 = some [1] := by
    decide +kernel
  obtain ⟨id, member, i, slot, name, _⟩ :=
    spelled {} _ none editorVolume (ascii "allow syscall write\n") [1] (by decide)
      (Prod.ext started rfl)
  exact ⟨id, member, i, slot, name⟩

/-- Two letters more in the base name start the same program without its profile. -/
theorem long_path_unprofiled :
    Fat.toFat83 (ascii "EDITORPRO1.ELF") = Fat.toFat83 (ascii "EDITORPR.ELF") ∧
      editorVolume (profileEntry (ascii "EDITORPRO1.ELF")) = some (ascii "allow syscall write\n") ∧
      (System.macPrepareExec {} none (some (ascii "EDITORPR.ELF")) (readsFrom editorVolume)).1
        = some [1] ∧
      (System.macPrepareExec {} none (some (ascii "EDITORPRO1.ELF")) (readsFrom editorVolume)).1
        = some [] := by
  decide +kernel

end NovaOs.Confine
