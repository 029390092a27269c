import NovaOs.Mac.Evaluation
import NovaOs.Mac.Glob
import NovaOs.Fat32.Dirent

/-! Names as the rules see them, and the directory entries they stand for. -/

namespace NovaOs.Confine

variable {name : Bytes} {policy : Policy}

open List

/-- The part of a name behind its first dot. -/
def extension (name : Bytes) : Bytes :=
  (name.dropWhile (· != 46)).drop 1

/-- The name a directory entry is listed under, its blanks left out. -/
def fromFat83 (raw : Bytes) : Bytes :=
  (raw.take 8).filter (· != 32) ++
    if raw.getD 8 32 != 32 then 46 :: (raw.drop 8).filter (· != 32) else []

/-- The system calls that name a file. -/
inductive FileCall where
  | opening | writeFile | deleteFile
  deriving DecidableEq, Repr

/-- The name that reaches the file system: the handle of an open file holds twelve bytes of it. -/
def FileCall.handed : FileCall → Bytes → Bytes
  | .opening, name => name.take 12
  | .writeFile, name | .deleteFile, name => name

/-- The name of the directory entry that a call reads, creates, overwrites or deletes. -/
def FileCall.entry (call : FileCall) (name : Bytes) : Bytes :=
  fromFat83 (Fat.toFat83 (call.handed name))

/-- Lower case is folded once and for all. -/
theorem foldCase_foldCase (b : UInt8) : foldCase (foldCase b) = foldCase b := by
  unfold foldCase
  split
  · rename_i lower
    simp only [Bool.and_eq_true, decide_eq_true_eq, UInt8.le_iff_toNat_le,
      UInt8.reduceToNat] at lower
    -- Thirty-two below a lower-case letter stands an upper-case one.
    have low : (32 : UInt8) ≤ b := by
      simp only [UInt8.le_iff_toNat_le, UInt8.reduceToNat]
      omega
    rw [if_neg]
    simp only [Bool.and_eq_true, decide_eq_true_eq, UInt8.le_iff_toNat_le,
      UInt8.toNat_sub_of_le _ _ low, UInt8.reduceToNat]
    omega
  · rfl

namespace Speaks

variable {pat text other : List UInt8}

/-- Patterns do not tell upper case from lower case. -/
theorem congr (same : text.map foldCase = other.map foldCase) (speaks : Speaks pat text) :
    Speaks pat other := by
  induction pat generalizing text other with
  | nil =>
    simp only [Speaks] at speaks ⊢
    subst speaks
    simpa using same.symm
  | cons c pat ih =>
    by_cases star : c = 42
    · subst star
      rw [star_iff] at speaks ⊢
      obtain ⟨k, speaks⟩ := speaks
      refine ⟨k, ih ?_ speaks⟩
      rw [map_drop, same, map_drop]
    rw [byte_iff star] at speaks ⊢
    obtain ⟨d, rest, rfl, fits, speaks⟩ := speaks
    cases other with
    | nil => simp at same
    | cons e others =>
      obtain ⟨first, later⟩ := cons.inj same
      exact ⟨e, others, rfl, by rwa [← first], ih later speaks⟩

/-- So many question marks and a star stand for every name that is long enough. -/
theorem atLeast (width : Nat) :
    Speaks (replicate width 63 ++ [42]) text ↔ width ≤ text.length := by
  induction width generalizing text with
  | zero =>
    rw [replicate_zero, nil_append, star_iff]
    simp only [Nat.zero_le, iff_true]
    exact ⟨text.length, drop_length⟩
  | succ width ih =>
    rw [replicate_succ, cons_append, byte_iff (by decide)]
    constructor
    · rintro ⟨d, rest, rfl, _, speaks⟩
      exact Nat.succ_le_succ (ih.mp speaks)
    · intro long
      cases text with
      | nil => simp at long
      | cons d rest =>
        exact ⟨d, rest, rfl, .inl rfl, ih.mpr (Nat.le_of_succ_le_succ long)⟩

/-- A star and some plain bytes stand for every name that ends in those bytes. -/
theorem endsIn {tail : List UInt8} (plain : tail.all (fun c => c != 42 && c != 63) = true) :
    Speaks (42 :: tail) text ↔ tail.map foldCase <:+ text.map foldCase := by
  -- Plain bytes stand for themselves, in either case.
  have exact_ : ∀ rest, Speaks tail rest ↔ rest.map foldCase = tail.map foldCase := by
    intro rest
    induction tail generalizing rest with
    | nil => simp [Speaks]
    | cons c tail ih =>
      simp only [all_cons, Bool.and_eq_true, bne_iff_ne] at plain
      obtain ⟨⟨star, mark⟩, plain⟩ := plain
      have later := ih (by simpa using plain)
      rw [byte_iff star]
      cases rest with
      | nil => simp
      | cons d rest => ?_
      simp only [cons.injEq, map_cons, mark, false_or]
      constructor
      · rintro ⟨_, _, ⟨rfl, rfl⟩, fits, speaks⟩
        exact ⟨fits.symm, (later _).mp speaks⟩
      · rintro ⟨fits, same⟩
        exact ⟨d, rest, ⟨rfl, rfl⟩, fits.symm, (later _).mpr same⟩
  rw [star_iff]
  constructor
  · rintro ⟨k, speaks⟩
    rw [← (exact_ _).mp speaks, map_drop]
    exact drop_suffix k _
  · intro suffix
    refine ⟨text.length - tail.length, (exact_ _).mpr ?_⟩
    have taken := suffix_iff_eq_drop.mp suffix
    rw [map_drop, taken]
    simp

end Speaks

/-! ## The entry a name stands for -/

/-- The blanks a name is filled up with are not listed. -/
theorem padName_filter (width : Nat) (text : Bytes) :
    (Fat.padName width text).filter (· != 32)
      = ((text.take width).map foldCase).filter (· != 32) := by
  have filled : (Fat.padName width text)
      = (text.take width).map foldCase
        ++ replicate (width - (text.take width).length) 32 := by
    simp only [Fat.padName]
    rw [take_append, take_of_length_le (by simp), take_replicate]
    congr 2
    simp only [length_map]
    omega
  have blank : (replicate (width - (text.take width).length) (32 : UInt8)).filter (· != 32)
      = [] := by
    simp
  rw [filled, filter_append, blank, append_nil]

/-- A name is what stands before its first dot, the dot, and what stands behind it. -/
theorem name_cases (name : Bytes) :
    (name.takeWhile (· != 46) = name ∧ extension name = []) ∨
      name = name.takeWhile (· != 46) ++ 46 :: extension name := by
  have split := takeWhile_append_dropWhile (p := (· != 46)) (l := name)
  cases rest : name.dropWhile (· != 46) with
  | nil =>
    rw [rest, append_nil] at split
    exact .inl ⟨split, by simp [extension, rest]⟩
  | cons c later => ?_
  have dot : c = 46 := by
    have stops := head_dropWhile_not (p := (· != 46)) (l := name) (by simp [rest])
    simpa [rest] using stops
  rw [rest, dot] at split
  exact .inr (by simp [extension, rest, split])

theorem toFat83_take : (Fat.toFat83 name).take 8 = Fat.padName 8 (name.takeWhile (· != 46)) := by
  rw [Fat.toFat83, take_left' (by simp)]

theorem toFat83_drop : (Fat.toFat83 name).drop 8 = Fat.padName 3 (extension name) := by
  rw [Fat.toFat83, drop_left' (by simp), extension]

/-- An entry is listed under a part of the name, bytes left out but none added. -/
theorem fromFat83_sublist : (fromFat83 (Fat.toFat83 name)).Sublist (name.map foldCase) := by
  have base : ((Fat.toFat83 name).take 8).filter (· != 32)
      |>.Sublist ((name.takeWhile (· != 46)).map foldCase) := by
    rw [toFat83_take, padName_filter]
    exact filter_sublist.trans ((take_sublist 8 _).map foldCase)
  have ending : ((Fat.toFat83 name).drop 8).filter (· != 32)
      |>.Sublist ((extension name).map foldCase) := by
    rw [toFat83_drop, padName_filter]
    exact filter_sublist.trans ((take_sublist 3 _).map foldCase)
  unfold fromFat83
  split
  · rename_i listed
    rcases name_cases name with ⟨_, none⟩ | whole
    · -- Without anything behind a dot there is no extension to list.
      have blank : (Fat.toFat83 name).getD 8 32 = 32 := by
        have first : (Fat.toFat83 name).getD 8 32 = ((Fat.toFat83 name).drop 8).getD 0 32 := by
          simp [getD_eq_getElem?_getD]
        rw [first, toFat83_drop, none]
        rfl
      rw [blank] at listed
      exact absurd listed (by decide)
    · conv => rhs; rw [whole]
      rw [map_append, map_cons]
      exact base.append (ending.cons_cons (foldCase 46))
  · rw [append_nil]
    exact base.trans ((takeWhile_sublist _).map foldCase)

theorem FileCall.entry_sublist (call : FileCall) (name : Bytes) :
    (call.entry name).Sublist (name.map foldCase) := by
  have handed : (call.handed name).Sublist name := by
    cases call with
    | opening => exact take_sublist 12 name
    | writeFile | deleteFile => exact Sublist.refl name
  exact (fromFat83_sublist).trans (handed.map foldCase)

/-! ## File rules -/

theorem Policy.allowsFile_congr {other : Bytes} {op : UInt8}
    (same : name.map foldCase = other.map foldCase) :
    policy.allowsFile name op = policy.allowsFile other op := by
  have matches_ : ∀ pat, globMatch pat name = globMatch pat other := by
    intro pat
    rw [Bool.eq_iff_iff, globMatch_iff, globMatch_iff]
    exact ⟨Speaks.congr same, Speaks.congr same.symm⟩
  simp only [Policy.allowsFile, matches_]

/-- A profile that lets a process read every file whose name is longer than so many bytes. -/
def longNames (width : Nat) : Policy where
  files := [⟨List.replicate (width + 1) 63 ++ [42], fileRead⟩]

theorem longNames_allows {width : Nat} :
    (longNames width).allowsFile name fileRead = true ↔ width < name.length := by
  have long := (globMatch_iff (replicate (width + 1) 63 ++ [42]) name).trans
    (Speaks.atLeast (width + 1))
  cases answer : globMatch (replicate (width + 1) 63 ++ [42]) name with
  | true =>
    have allowed : (longNames width).allowsFile name fileRead = true := by
      simp [Policy.allowsFile, longNames, answer, fileRead]
    exact ⟨fun _ => long.mp answer, fun _ => allowed⟩
  | false =>
    have refused : (longNames width).allowsFile name fileRead = false := by
      simp [Policy.allowsFile, longNames, answer, fileRead]
    rw [refused]
    exact ⟨nofun, fun longer => absurd (long.mpr longer) (by simp [answer])⟩

/-- A table with one profile in its first slot. -/
def Mac.only (policy : Policy) : Mac where
  slots := fun i => if i.val = 0 then { inUse := true, policy := policy } else {}

theorem Mac.only_refuses (enforcing : policy.complain = false) (pid : Pid) (action : Action) :
    ((Mac.only policy).check [1] pid action).1 < 0 ↔ action.allowedBy policy = false := by
  rw [(Mac.check_spec _ _ _ _).2]
  have named : (Mac.only policy).slotOf? 1 = some ⟨0, by decide⟩ :=
    Mac.slotOf?_eq_some.mpr ⟨by decide, rfl⟩
  constructor
  · rintro (deep | ⟨id, member, denies⟩)
    · exact absurd deep (by decide)
    · obtain rfl := mem_singleton.mp member
      exact (denies _ named).1
  · intro refused
    refine .inr ⟨1, mem_singleton_self 1, fun i found => ?_⟩
    obtain rfl := Option.some.inj (named.symm.trans found)
    exact ⟨refused, enforcing⟩

/-- The file rules of every profile treat a name like the entry it stands for exactly if the entry
is listed under that very name, upper case and lower case aside. -/
theorem file_rules_reach_entry (call : FileCall) (name : Bytes)
    (copied : name.length + 1 < pathCap) :
    (∀ (mac : Mac) (stack : List UInt16) (pid : Pid) (op : UInt8),
      0 ≤ (mac.checkFile stack pid name op).1 →
        0 ≤ (mac.checkFile stack pid (call.entry name) op).1) ↔
      call.entry name = name.map foldCase := by
  have shorter := (call.entry_sublist name).length_le
  rw [length_map] at shorter
  have whole : Mac.checkedName name = name ∧
      Mac.checkedName (call.entry name) = call.entry name := by
    simp only [pathCap] at copied
    simp only [Mac.checkedName]
    rw [if_neg (by omega), if_neg (by omega)]
    exact ⟨rfl, rfl⟩
  constructor
  · -- A profile for longer names tells the name from an entry that is listed under less.
    intro follows
    by_contra differs
    have less : (call.entry name).length < name.length := by
      refine Nat.lt_of_le_of_ne shorter fun same => differs ?_
      exact (call.entry_sublist name).eq_of_length (by simpa using same)
    have accepted := follows (Mac.only (longNames (call.entry name).length)) [1] 0 fileRead
    have enforcing : (longNames (call.entry name).length).complain = false := rfl
    have named := Mac.only_refuses enforcing 0 (.file name fileRead)
    have listed := Mac.only_refuses enforcing 0 (.file (call.entry name) fileRead)
    have allowed : (Action.file name fileRead).allowedBy (longNames (call.entry name).length)
        = true := by
      have present : name ≠ [] := fun empty => by simp [empty] at less
      simp [Action.allowedBy, whole.1, longNames_allows.mpr less, present]
    have refused : (Action.file (call.entry name) fileRead).allowedBy
        (longNames (call.entry name).length) = false := by
      have short : (longNames (call.entry name).length).allowsFile (call.entry name) fileRead
          = false := by
        rw [← Bool.not_eq_true, longNames_allows]
        exact Nat.lt_irrefl _
      simp [Action.allowedBy, whole.2, short]
    rw [allowed] at named
    have negative := listed.mpr refused
    have fine : 0 ≤ ((Mac.only (longNames (call.entry name).length)).check [1] 0
        (.file name fileRead)).1 := Int.not_lt.mp fun below => absurd (named.mp below) (by decide)
    exact absurd (accepted fine) (Int.not_le.mpr negative)
  · intro same mac stack pid op accepted
    have folded : name.map foldCase = (call.entry name).map foldCase := by
      rw [same, map_map]
      exact map_congr_left fun b _ => (foldCase_foldCase b).symm
    have alike : (Action.file (call.entry name) op).allowedBy
        = (Action.file name op).allowedBy := by
      funext policy
      have empty : (call.entry name).isEmpty = name.isEmpty := by
        rw [same]
        cases name <;> rfl
      simp only [Action.allowedBy, whole.1, whole.2, empty, Policy.allowsFile_congr folded]
    have listed := (mac.check_spec stack pid (.file (call.entry name) op)).2
    rw [alike, ← (mac.check_spec stack pid (.file name op)).2] at listed
    exact Int.not_lt.mp fun below => absurd (listed.mp below) (Int.not_lt.mpr accepted)

theorem file_rules_reach_entry_notes :
    FileCall.writeFile.entry (ascii "notes.txt") = ascii "NOTES.TXT" ∧
      0 ≤ ((Mac.load {} (ascii "APP") (ascii "allow file w notes.txt\n")).2.checkFile [1] 7
        (ascii "notes.txt") fileWrite).1 ∧
      0 ≤ ((Mac.load {} (ascii "APP") (ascii "allow file w notes.txt\n")).2.checkFile [1] 7
        (FileCall.writeFile.entry (ascii "notes.txt")) fileWrite).1 := by
  have allowed : 0 ≤ ((Mac.load {} (ascii "APP") (ascii "allow file w notes.txt\n")).2.checkFile [1]
      7 (ascii "notes.txt") fileWrite).1 := by
    decide +kernel
  exact ⟨by decide, allowed, (file_rules_reach_entry .writeFile (ascii "notes.txt")
    (by decide)).mpr (by decide) _ _ _ _ allowed⟩

/-- A profile for one file lets its process overwrite another: the ninth letter of the name does
not reach the directory. -/
theorem long_name_reaches_other_file :
    0 ≤ ((Mac.load {} (ascii "APP") (ascii "allow file w REPORTS12.TXT\n")).2.checkFile [1] 7
      (ascii "REPORTS12.TXT") fileWrite).1 ∧
    FileCall.writeFile.entry (ascii "REPORTS12.TXT") = ascii "REPORTS1.TXT" ∧
    ((Mac.load {} (ascii "APP") (ascii "allow file w REPORTS12.TXT\n")).2.checkFile [1] 7
      (ascii "REPORTS1.TXT") fileWrite).1 < 0 := by
  decide +kernel

/-! ## Policy files -/

/-- Whether a name is one of a policy file. -/
def isPolicyFile (name : Bytes) : Bool :=
  decide (4 ≤ name.length) && globMatch (ascii "*.MAC") name

/-- A policy file may only be changed by an unconfined root, and never after the freeze. -/
def macPolicyWriteAllowed (isAdmin frozen : Bool) (name : Bytes) : Bool :=
  if !isPolicyFile name then true else isAdmin && !frozen

/-- An entry with the extension of a policy file: three letters stand behind the first dot of its
name, and more may follow. -/
theorem touches_mac (touches : (Fat.toFat83 name).drop 8 = ascii "MAC") :
    name = name.takeWhile (· != 46) ++ 46 :: extension name ∧ 3 ≤ (extension name).length ∧
      ((extension name).take 3).map foldCase = ascii "MAC" := by
  rw [toFat83_drop] at touches
  -- Filling up with blanks would show.
  have listed := padName_filter 3 (extension name)
  rw [touches, show (ascii "MAC").filter (· != 32) = ascii "MAC" by decide] at listed
  have width : 3 ≤ (((extension name).take 3).map foldCase).length := by
    have kept := (filter_sublist (p := fun b : UInt8 => b != 32)
      (l := ((extension name).take 3).map foldCase)).length_le
    rw [← listed] at kept
    exact kept
  have whole : ((extension name).take 3).map foldCase = ascii "MAC" := by
    rw [listed]
    refine (filter_sublist.eq_of_length ?_).symm
    rw [← listed]
    refine Nat.le_antisymm (Nat.le_trans (by decide) width) ?_
    simp only [length_map, length_take]
    exact Nat.min_le_left _ _
  have long : 3 ≤ (extension name).length := by
    simp only [length_map, length_take] at width
    omega
  refine ⟨?_, long, whole⟩
  rcases name_cases name with ⟨_, none⟩ | split
  · simp [none] at long
  · exact split

/-- An entry with the extension of a policy file is recognised by the name it is changed under
exactly if nothing stands behind the three letters, or the name ends in the extension once more. -/
theorem policy_guard_covers (name : Bytes)
    (touches : (Fat.toFat83 name).drop 8 = ascii "MAC") :
    isPolicyFile name = true ↔
      (extension name).length = 3 ∨ ascii ".MAC" <:+ (extension name).map foldCase := by
  obtain ⟨split, long, letters⟩ := touches_mac touches
  have folded : name.map foldCase
      = (name.takeWhile (· != 46)).map foldCase ++ 46 :: (extension name).map foldCase := by
    conv => lhs; rw [split]
    rw [map_append, map_cons]
    rfl
  have length : 4 ≤ name.length := by
    rw [split, length_append, length_cons]
    omega
  have recognised : isPolicyFile name = true ↔ ascii ".MAC" <:+ name.map foldCase := by
    rw [isPolicyFile, Bool.and_eq_true, globMatch_iff,
      show ascii "*.MAC" = 42 :: ascii ".MAC" from rfl, Speaks.endsIn (by decide)]
    simp only [length, decide_true, true_and]
    rfl
  rw [recognised, folded]
  constructor
  · intro ends
    by_cases three : (extension name).length = 3
    · exact .inl three
    -- The extension is long enough to hold the ending by itself.
    refine .inr (suffix_of_suffix_length_le ends
      ((suffix_cons 46 _).trans (suffix_append _ _)) ?_)
    rw [length_map]
    exact Nat.lt_of_le_of_ne long (Ne.symm three)
  · rintro (three | ends)
    · rw [take_of_length_le (Nat.le_of_eq three)] at letters
      rw [letters]
      exact suffix_append _ _
    · exact ends.trans ((suffix_cons 46 _).trans (suffix_append _ _))

theorem policy_guard_covers_app : isPolicyFile (ascii "app.Mac") = true :=
  (policy_guard_covers (ascii "app.Mac") (by decide)).mpr (.inl (by decide))

/-- A letter more behind the extension, and everyone may change the policy file. -/
theorem long_extension_unguarded :
    Fat.toFat83 (ascii "APP.MACX") = Fat.toFat83 (ascii "APP.MAC") ∧
      (Fat.toFat83 (ascii "APP.MACX")).drop 8 = ascii "MAC" ∧
      isPolicyFile (ascii "APP.MACX") = false ∧
      macPolicyWriteAllowed false true (ascii "APP.MACX") = true := by
  decide +kernel

end NovaOs.Confine
