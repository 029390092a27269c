import NovaOs.Packages.Repository

/-!
What the package server hands out: signed bytes only, from files with the extension of packages,
and only after a verification that stays inside the bytes read; and what it takes for that.
-/

namespace NovaOs.Pkg

variable {bytes : Bytes} {path name : Bytes}

open Slice List

/-! Names of packages. -/

/-- Upper case makes letters of letters, and so nothing else of anything. -/
theorem upperCase_eq_iff {c d : UInt8} (low : d.toNat < 65) : Fat.upperCase c = d ↔ c = d := by
  unfold Fat.upperCase
  split
  · rename_i letter
    simp only [Bool.and_eq_true, decide_eq_true_eq, UInt8.le_iff_toNat_le] at letter
    have wide : (32 : UInt8) ≤ c :=
      UInt8.le_iff_toNat_le.mpr (Nat.le_trans (show 32 ≤ 97 by omega) letter.1)
    rw [← UInt8.toNat_inj, ← UInt8.toNat_inj, UInt8.toNat_sub_of_le _ _ wide]
    simp only [UInt8.reduceToNat] at *
    omega
  · rfl

/-- The part of a path that a package's name is made of. -/
def baseName (path : Bytes) : Bytes := (stripDirectory path).takeWhile fun b => !endsBase b

/-- A name that is extracted from a path: that part in upper case, and the extension. -/
theorem extractPackageFilename_eq (extracted : extractPackageFilename path = some name) :
    name = (baseName path).map Fat.upperCase ++ ascii ".PKG" ++ [0] := by
  unfold extractPackageFilename at extracted
  dsimp only at extracted
  -- Every branch that returns a name returns this one.
  split at extracted
  · cases extracted
  split at extracted
  · cases extracted
  split at extracted
  · split at extracted
    · exact (Option.some.inj extracted).symm
    · cases extracted
  · exact (Option.some.inj extracted).symm

/-- A C string that names a file with the extension of packages. -/
def NamesPackage (name : Bytes) : Prop := (Fat.toFat83 name).drop 8 = ascii "PKG"

instance (name : Bytes) : Decidable (NamesPackage name) := inferInstanceAs (Decidable (_ = _))

/-- The name on disk that C reads from an extracted name has the extension of packages exactly if no
zero byte ends it early. -/
theorem namesPackage_iff (extracted : extractPackageFilename path = some name) :
    NamesPackage (extractCstr name) ↔ (0 : UInt8) ∉ baseName path := by
  have dotless : ∀ c ∈ (baseName path).map Fat.upperCase, c ≠ 46 := by
    intro c member is
    obtain ⟨b, inBase, rfl⟩ := mem_map.mp member
    have ends := mem_takeWhile_imp inBase
    rw [(upperCase_eq_iff (by decide)).mp is] at ends
    exact absurd ends (by decide)
  have zero : (0 : UInt8) ∈ (baseName path).map Fat.upperCase ↔ (0 : UInt8) ∈ baseName path := by
    simp only [mem_map, upperCase_eq_iff (show (0 : UInt8).toNat < 65 by decide), exists_eq_right]
  rw [extractPackageFilename_eq extracted, ← zero, NamesPackage, Fat.toFat83,
    drop_left' (by simp [Fat.padName])]
  generalize (baseName path).map Fat.upperCase = upper at dotless
  by_cases early : (0 : UInt8) ∈ upper
  · -- The string ends before the extension, and has no dot.
    obtain ⟨front, behind, rfl, first⟩ := eq_append_cons_of_mem early
    have cstr : extractCstr (front ++ 0 :: behind ++ ascii ".PKG" ++ [0]) = front := by
      simp only [extractCstr, append_assoc, cons_append]
      rw [takeWhile_append_of_pos (fun c member => by
        simpa using fun is : c = 0 => first (is ▸ member))]
      simp
    have none : front.dropWhile (· != 46) = [] :=
      dropWhile_eq_nil_iff.mpr fun c member => by simpa using dotless c (by simp [member])
    rw [cstr, none]
    exact iff_of_false (by decide) (not_not.mpr early)
  · -- The zero that ends the string is the one that was written there, and so is the dot.
    have cstr : extractCstr (upper ++ ascii ".PKG" ++ [0]) = upper ++ ascii ".PKG" := by
      rw [extractCstr, append_assoc, takeWhile_append_of_pos (fun c member => by
        simpa using fun is : c = 0 => early (is ▸ member))]
      rfl
    have dot : (upper ++ ascii ".PKG").dropWhile (· != 46) = ascii ".PKG" := by
      rw [dropWhile_append_of_pos (fun c member => by simpa using dotless c member)]
      rfl
    rw [cstr, dot]
    exact iff_of_true rfl early

/-! Verification of the bytes read. -/

/-- A slice inside the bytes read is a slice of the file. -/
theorem fromRawParts_inside (beyond : Memory) {ptr len : Nat} (fits : ptr + len ≤ bytes.length) :
    fromRawParts (bufferMemory beyond bytes) ptr len = (bytes.drop ptr).take len := by
  apply ext_getElem
  · rw [fromRawParts, length_map, length_range, length_take, length_drop]
    omega
  · intro i left _
    have within : i < len := by simpa [fromRawParts] using left
    simp [fromRawParts, bufferMemory, show ptr + i < bytes.length by omega]

/-- A header with zeros where its signature was. -/
def withoutSignature (header : Bytes) : Bytes :=
  header.take pkgSignatureOffset ++ List.replicate pkgSignatureLen 0

/-- The bytes are a package whose header holds the signature of the header and of the payload it
declares. -/
def Signed (bytes : Bytes) : Prop :=
  computeSignature (withoutSignature (bytes.take pkgHeaderSize))
      ((bytes.drop pkgHeaderSize).take (declaredSize bytes).toNat)
    = .ok ((bytes.drop pkgSignatureOffset).take pkgSignatureLen)

theorem zeroSignature_ok {header : Bytes} (full : header.length = pkgHeaderSize) :
    zeroSignature header pkgSignatureOffset = .ok (withoutSignature header) := by
  have size : header.length = 128 := full
  rw [zeroSignature, copyFromSlice_ok (Nat.zero_le _) (by rw [length_replicate]; omega)
    (by omega), ok_bind]
  generalize filled : (replicate 256 (0 : UInt8)).take 0 ++ header
    ++ (replicate 256 0).drop header.length = buf
  have width : buf.length = 256 := by
    rw [← filled, take_zero, nil_append, length_append, length_drop, length_replicate, size]
  have front : buf.take pkgSignatureOffset = header.take pkgSignatureOffset := by
    rw [← filled, take_zero, nil_append, take_append_of_le_length (by rw [size]; decide)]
  rw [copyFromSlice_ok (by omega) (by rw [width]; decide) (by simp), ok_bind, front,
    slice_ok (Nat.zero_le _) (by
      simp only [length_append, length_take, length_drop, length_replicate,
        width, size, pkgSignatureOffset, pkgSignatureLen]
      omega)]
  rw [drop_zero, Nat.sub_zero, take_left' (by simp [size, pkgSignatureOffset, pkgSignatureLen])]
  rfl

/-- Verification compares the signature of header and payload with the field in the header. -/
theorem rustPkgVerifySignature_eq (memory : Memory) (payloadPtr : Nat) (payloadLen : UInt32) :
    ∃ expected, computeSignature (withoutSignature (fromRawParts memory 0 pkgHeaderSize))
        (fromRawParts memory payloadPtr payloadLen.toNat) = .ok expected
      ∧ rustPkgVerifySignature memory 0 (UInt32.ofNat pkgHeaderSize)
          (UInt32.ofNat pkgSignatureOffset) payloadPtr payloadLen
        = .ok (constantTimeEq expected ((fromRawParts memory 0 pkgHeaderSize).drop
          pkgSignatureOffset |>.take pkgSignatureLen)) := by
  rw [rustPkgVerifySignature, if_neg (by decide)]
  simp only [show (UInt32.ofNat pkgHeaderSize).toNat = pkgHeaderSize from rfl,
    show (UInt32.ofNat pkgSignatureOffset).toNat = pkgSignatureOffset from rfl]
  have full : (fromRawParts memory 0 pkgHeaderSize).length = pkgHeaderSize := by
    rw [fromRawParts, length_map, length_range]
  generalize fromRawParts memory 0 pkgHeaderSize = header at full
  obtain ⟨expected, computed, -⟩ := computeSignature_returns (withoutSignature header)
    (fromRawParts memory payloadPtr payloadLen.toNat)
  rw [zeroSignature_ok full, ok_bind, computed, ok_bind,
    slice_ok (by decide) (by rw [full]; decide)]
  exact ⟨expected, rfl, rfl⟩

/-- The end of a package is computed in 32 bits. -/
theorem package_end (small : pkgHeaderSize + (declaredSize bytes).toNat < 2 ^ 32) :
    (UInt32.ofNat pkgHeaderSize + declaredSize bytes).toNat
      = pkgHeaderSize + (declaredSize bytes).toNat := by
  rw [UInt32.toNat_add, Nat.mod_eq_of_lt (by exact small)]
  rfl

/-- Where header and declared payload lie inside the bytes read, verification looks at nothing else,
and accepts exactly the signed packages. -/
theorem verifyPkgBytes_inside (beyond : Memory) (magic : bytes.take 4 = ascii "NVPK")
    (fits : pkgHeaderSize + (declaredSize bytes).toNat ≤ bytes.length)
    (small : pkgHeaderSize + (declaredSize bytes).toNat < 2 ^ 32) :
    ∃ check, verifyPkgBytes beyond bytes = .ok check ∧ check.contents = bytes
      ∧ check.reach = pkgHeaderSize + (declaredSize bytes).toNat
      ∧ (check.accepted = true ↔ Signed bytes) := by
  have long : pkgHeaderSize ≤ bytes.length := by omega
  obtain ⟨expected, computed, verdict⟩ := rustPkgVerifySignature_eq (bufferMemory beyond bytes)
    pkgHeaderSize (declaredSize bytes)
  -- The header holds the field whole, so it is cut from the bytes as it is from the header.
  rw [fromRawParts_inside beyond (show 0 + pkgHeaderSize ≤ bytes.length by omega), drop_zero] at *
  rw [fromRawParts_inside beyond fits] at computed
  rw [drop_take, take_take] at verdict
  rw [verifyPkgBytes, if_neg (by omega), if_neg (not_not.mpr magic)]
  simp only [package_end small]
  rw [if_neg (by omega), verdict]
  refine ⟨_, rfl, rfl, rfl, ?_⟩
  rw [constantTimeEq_iff, Signed, computed]
  exact ⟨fun same => congrArg Except.ok same, fun same => Except.ok.inj same⟩

/-- The end of a package is computed without running over 32 bits, and (if all of its bytes are
sent) a signed one has none behind that end. -/
def Covered (whole : Bool) (bytes : Bytes) : Prop :=
  pkgHeaderSize ≤ bytes.length → bytes.take 4 = ascii "NVPK" →
    pkgHeaderSize + (declaredSize bytes).toNat < 2 ^ 32 ∧
      (whole = true → Signed bytes → bytes.length ≤ pkgHeaderSize + (declaredSize bytes).toNat)

/-- Verification of the bytes read stays inside them exactly if their end is computed right, and
what it accepts then is signed to the last byte exactly if they are covered. -/
theorem verifyPkgBytes_covered (beyond : Memory) (short : bytes.length < 2 ^ 32) :
    ∃ check, verifyPkgBytes beyond bytes = .ok check ∧ check.contents = bytes ∧
      (check.reach ≤ bytes.length ↔ Covered false bytes) ∧
      (Covered false bytes → (check.accepted = true → Signed bytes) ∧
        (Covered true bytes ↔ (check.accepted = true → bytes.length ≤ check.reach))) := by
  by_cases long : bytes.length < pkgHeaderSize
  · have all (whole : Bool) : Covered whole bytes :=
      fun header => absurd long (Nat.not_lt.mpr header)
    rw [verifyPkgBytes, if_pos long]
    exact ⟨_, rfl, rfl, iff_of_true (Nat.zero_le _) (all _),
      fun _ => ⟨nofun, iff_of_true (all _) nofun⟩⟩
  have header : 128 ≤ bytes.length := Nat.not_lt.mp long
  by_cases magic : bytes.take 4 = ascii "NVPK"
  · by_cases small : pkgHeaderSize + (declaredSize bytes).toNat < 2 ^ 32
    · have inside : Covered false bytes := fun _ _ => ⟨small, nofun⟩
      by_cases fits : pkgHeaderSize + (declaredSize bytes).toNat ≤ bytes.length
      · obtain ⟨check, verified, contents, reach, accepts⟩ :=
          verifyPkgBytes_inside beyond magic fits small
        refine ⟨check, verified, contents, iff_of_true (reach ▸ fits) inside, fun _ =>
          ⟨accepts.mp, fun covered accepted => ?_, fun ends _ _ => ⟨small, fun _ signed => ?_⟩⟩⟩
        · exact reach ▸ (covered header magic).2 rfl (accepts.mp accepted)
        · exact reach ▸ ends (accepts.mpr signed)
      -- The declared payload is not all there: the bytes are rejected by their length.
      rw [verifyPkgBytes, if_neg long, if_neg (not_not.mpr magic)]
      simp only [package_end small]
      rw [if_pos (by omega)]
      exact ⟨_, rfl, rfl, iff_of_true (by simp only; omega) inside, fun _ =>
        ⟨nofun, iff_of_true (fun _ _ => ⟨small, fun _ _ => by omega⟩) nofun⟩⟩
    -- The end runs over, to less than a header, and the check of the length is passed.
    have wraps : (UInt32.ofNat pkgHeaderSize + declaredSize bytes).toNat ≤ bytes.length := by
      have bound := (declaredSize bytes).toNat_lt
      rw [UInt32.toNat_add, show (UInt32.ofNat pkgHeaderSize).toNat = 128 from rfl]
      rw [pkgHeaderSize] at small
      omega
    obtain ⟨_, _, verdict⟩ := rustPkgVerifySignature_eq (bufferMemory beyond bytes) pkgHeaderSize
      (declaredSize bytes)
    have wrong : ¬Covered false bytes := fun covered => small (covered header magic).1
    rw [verifyPkgBytes, if_neg long, if_neg (not_not.mpr magic)]
    simp only
    rw [if_neg (Nat.not_lt.mpr wraps), verdict]
    exact ⟨_, rfl, rfl, iff_of_false (by simp only; omega) wrong,
      fun covered => absurd covered wrong⟩
  · have all (whole : Bool) : Covered whole bytes := fun _ is => absurd is magic
    rw [verifyPkgBytes, if_neg long, if_pos magic]
    exact ⟨_, rfl, rfl, iff_of_true (by simp only; omega) (all _),
      fun _ => ⟨nofun, iff_of_true (all _) nofun⟩⟩

/-! The handler. -/

/-- What the server promises about an answer. -/
structure Sound (outcome : Outcome) : Prop where
  /-- The body of a package is the front of verified bytes, and no longer than what the accepted
  signature covers. -/
  signed : ∀ headers body, outcome.reply = .package headers body →
    ∃ check ∈ outcome.checks, check.accepted = true ∧ Signed check.contents
      ∧ body <+: check.contents ∧ body.length ≤ check.reach
  /-- Only packages are read. -/
  named : ∀ name ∈ outcome.opened, NamesPackage name
  /-- No verification reads past the bytes it was given. -/
  within : ∀ check ∈ outcome.checks, check.reach ≤ check.contents.length

/-- An answer for which no file was verified and no package is sent. -/
theorem Sound.unverified {outcome : Outcome} (checks : outcome.checks = [])
    (plain : ∀ headers body, outcome.reply ≠ .package headers body)
    (named : ∀ name ∈ outcome.opened, NamesPackage name) : Sound outcome where
  signed headers body is := absurd is (plain headers body)
  named
  within check member := by
    rw [checks] at member
    cases member

section Handler

variable {env : Env} {filename : Bytes} {body : Bytes × List Bytes × List Check}

/-- No file is read beyond the buffer it is read into. -/
theorem vfsReadFile_short {room : Nat} (small : room < 2 ^ 32)
    (read : env.vfsReadFile filename room = some bytes) : bytes.length < 2 ^ 32 := by
  obtain ⟨file, -, rfl⟩ := Option.map_eq_some_iff.mp read
  exact Nat.lt_of_le_of_lt (length_take_le room file) small

/-- A package that is asked for is served soundly exactly if its name is one, and its bytes are
covered. -/
theorem servePackage_sound_iff (server : PkgRepoServer) (isHead : Bool)
    (extracted : extractPackageFilename path = some filename) :
    ∃ after outcome, servePackage env server isHead filename = .ok (after, outcome) ∧
      (Sound outcome ↔ ∀ bytes, env.vfsReadFile filename maxPackageSize = some bytes →
        (0 : UInt8) ∉ baseName path ∧ Covered (!isHead) bytes) := by
  have named : (∀ n ∈ [extractCstr filename], NamesPackage n) ↔ (0 : UInt8) ∉ baseName path :=
    forall_mem_singleton.trans (namesPackage_iff extracted)
  rw [servePackage]
  cases read : env.vfsReadFile filename maxPackageSize with
  | none => exact ⟨_, _, rfl, iff_of_true (.unverified rfl nofun nofun) nofun⟩
  | some bytes => ?_
  simp only [Option.some.injEq, forall_eq']
  split
  · rename_i short
    exact ⟨_, _, rfl,
      fun sound => ⟨named.mp sound.named, fun header => absurd short (Nat.not_lt.mpr header)⟩,
      fun ok => .unverified rfl nofun (named.mpr ok.1)⟩
  obtain ⟨check, verified, rfl, reach, accepts⟩ := verifyPkgBytes_covered env.beyondFileBuf
    (vfsReadFile_short (show 65536 < 2 ^ 32 by omega) read)
  have within : (∀ c ∈ [check], c.reach ≤ c.contents.length) ↔ Covered false check.contents :=
    forall_mem_singleton.trans reach
  have front : Covered (!isHead) check.contents → Covered false check.contents :=
    fun covered header magic => ⟨(covered header magic).1, nofun⟩
  rw [verified, ok_bind]
  by_cases accepted : check.accepted = true
  · rw [if_pos accepted]
    refine ⟨_, _, rfl, fun sound => ⟨named.mp sound.named, ?_⟩,
      fun ok => ⟨?_, named.mpr ok.1, within.mpr (front ok.2)⟩⟩
    · have inside := within.mp sound.within
      cases isHead with
      | true => exact inside
      | false =>
        refine (accepts inside).2.mpr fun _ => ?_
        obtain ⟨other, member, -, -, -, covered⟩ := sound.signed _ _ rfl
        rwa [mem_singleton.mp member] at covered
    · intro headers body is
      obtain ⟨-, rfl⟩ := Reply.package.inj is
      refine ⟨check, mem_singleton_self check, accepted, (accepts (front ok.2)).1 accepted, ?_⟩
      cases isHead with
      | true => exact ⟨⟨_, rfl⟩, Nat.zero_le _⟩
      | false => exact ⟨⟨[], append_nil _⟩, (accepts (front ok.2)).2.mp ok.2 accepted⟩
  · -- What is rejected is not sent, so that only the end matters.
    rw [if_neg accepted]
    refine ⟨_, _, rfl, fun sound => ⟨named.mp sound.named, ?_⟩,
      fun ok => ⟨nofun, named.mpr ok.1, within.mpr (front ok.2)⟩⟩
    have inside := within.mp sound.within
    cases isHead with
    | true => exact inside
    | false => exact (accepts inside).2.mpr fun yes => absurd yes accepted

/-- The verifications made for an index stay inside their bytes. -/
def Within (body : Bytes × List Bytes × List Check) : Prop :=
  ∀ check ∈ body.2.2, check.reach ≤ check.contents.length

/-- One known package, read for the index. -/
theorem indexPackage_within (env : Env) (named : ∀ n ∈ body.2.1, NamesPackage n)
    (package : NamesPackage (extractCstr name)) :
    ∃ after, indexPackage env body name = .ok after ∧ (∀ n ∈ after.2.1, NamesPackage n) ∧
      (Within after ↔ Within body ∧
        ∀ bytes, env.vfsReadFile name 1024 = some bytes → Covered false bytes) := by
  obtain ⟨text, opened, checks⟩ := body
  have also : ∀ n ∈ opened ++ [extractCstr name], NamesPackage n := by
    intro n member
    rcases mem_append.mp member with earlier | last
    · exact named n earlier
    · rwa [mem_singleton.mp last]
  rw [indexPackage]
  cases read : env.vfsReadFile name 1024 with
  | none => exact ⟨_, rfl, named, fun within => ⟨within, nofun⟩, And.left⟩
  | some bytes => ?_
  simp only [Option.some.injEq, forall_eq']
  split
  · rename_i short
    exact ⟨_, rfl, also, fun within =>
      ⟨within, fun header => absurd short (Nat.not_lt.mpr header)⟩, And.left⟩
  obtain ⟨check, verified, rfl, reach, -⟩ := verifyPkgBytes_covered env.beyondStackBuf
    (vfsReadFile_short (show 1024 < 2 ^ 32 by omega) read)
  rw [verified]
  refine ⟨_, rfl, also, ?_⟩
  simp only [Within, mem_append, mem_singleton, or_imp, forall_and, forall_eq, reach]

theorem indexPackages_within (env : Env) (names : List Bytes)
    (packages : ∀ name ∈ names, NamesPackage (extractCstr name))
    (named : ∀ n ∈ body.2.1, NamesPackage n) :
    ∃ after, names.foldlM (indexPackage env) body = .ok after ∧ (∀ n ∈ after.2.1, NamesPackage n) ∧
      (Within after ↔ Within body ∧ ∀ name ∈ names, ∀ bytes,
        env.vfsReadFile name 1024 = some bytes → Covered false bytes) := by
  induction names generalizing body with
  | nil => exact ⟨body, rfl, named, fun within => ⟨within, nofun⟩, And.left⟩
  | cons name names ih =>
    obtain ⟨next, indexed, kept, one⟩ :=
      indexPackage_within env named (packages name mem_cons_self)
    obtain ⟨after, made, all, rest⟩ :=
      ih (fun n member => packages n (mem_cons_of_mem name member)) kept
    rw [foldlM_cons, indexed, ok_bind]
    exact ⟨after, made, all, by rw [rest, one, forall_mem_cons, and_assoc]⟩

/-- What a request for a path may find: for the index, known packages whose end is computed right;
for a package, a name without a zero byte and a file that is covered. -/
def Harmless (env : Env) (isHead : Bool) (path : Bytes) : Prop :=
  if path = ascii "/status" ∨ path = ascii "/health" then True
  else if path = ascii "/packages" ∨ path = ascii "/packages/" ∨ path = ascii "/packages/index"
      ∨ path = ascii "/index" then
    ∀ name ∈ knownPackages, ∀ bytes, env.vfsReadFile name 1024 = some bytes → Covered false bytes
  else ∀ filename, extractPackageFilename path = some filename → ∀ bytes,
    env.vfsReadFile filename maxPackageSize = some bytes →
      (0 : UInt8) ∉ baseName path ∧ Covered (!isHead) bytes

theorem dispatch_sound_iff (env : Env) (server : PkgRepoServer) (isHead : Bool) (path : Bytes) :
    ∃ after outcome, dispatch env server isHead path = .ok (after, outcome) ∧
      (Sound outcome ↔ Harmless env isHead path) := by
  rw [dispatch, Harmless]
  split
  · exact ⟨_, _, rfl, iff_of_true (.unverified rfl nofun nofun) trivial⟩
  split
  · obtain ⟨⟨text, opened, checks⟩, made, named, within⟩ :=
      indexPackages_within env knownPackages (by decide)
        (show ∀ n ∈ (ascii "# NovaOS Package Repository Index\n"
          ++ ascii "# Format: RFC 822 Package Stanzas\n\n", ([] : List Bytes),
            ([] : List Check)).2.1, NamesPackage n from nofun)
    rw [generateManifestIndex, made]
    refine ⟨_, _, rfl, fun sound => (within.mp sound.within).2, fun covered => ?_⟩
    exact ⟨nofun, named, within.mpr ⟨nofun, covered⟩⟩
  · cases extracted : extractPackageFilename path with
    | none => exact ⟨_, _, rfl, iff_of_true (.unverified rfl nofun nofun) nofun⟩
    | some filename =>
      simp only [Option.some.injEq, forall_eq']
      exact servePackage_sound_iff server isHead extracted

end Handler

/-- Every request is answered, and the answer is sound exactly if the request is no `GET` or `HEAD`,
or one for a path that is harmless. -/
theorem only_signed_served (env : Env) (server : PkgRepoServer) (received : Bytes) :
    ∃ after outcome, handleClient env server received = .ok (after, outcome) ∧
      (Sound outcome ↔ ∀ method path, parseHttpRequest received = some (method, path) →
        method ≠ .other → Harmless env (method = .head) path) := by
  rw [handleClient]
  split
  · rename_i empty
    rw [isEmpty_iff.mp empty]
    exact ⟨_, _, rfl, iff_of_true (.unverified rfl nofun nofun) nofun⟩
  cases parsed : parseHttpRequest received with
  | none => exact ⟨_, _, rfl, iff_of_true (.unverified rfl nofun nofun) nofun⟩
  | some request => ?_
  obtain ⟨method, path⟩ := request
  dsimp only
  by_cases other : method = .other
  · rw [if_pos other]
    refine ⟨_, _, rfl, iff_of_true (.unverified rfl nofun nofun) ?_⟩
    rintro _ _ ⟨⟩ known
    exact absurd other known
  · rw [if_neg other]
    obtain ⟨after, outcome, dispatched, sound⟩ := dispatch_sound_iff env
      { server with requestsTotal := server.requestsTotal + 1 } (method = .head) path
    refine ⟨after, outcome, dispatched, sound.trans ⟨?_, fun all => all _ _ rfl other⟩⟩
    rintro harmless _ _ ⟨⟩ -
    exact harmless

/-! Files that are not covered, and paths with a zero byte. -/

/-- A header that declares `size` bytes of payload and has an empty signature field. -/
def headerOf (size : UInt32) : Bytes :=
  putU32Le (ascii "NVPK" ++ List.replicate 124 0) 92 size

/-- A disk with one file. -/
def oneFile (name file : Bytes) : Env where
  disk wanted := if wanted = name then some file else none
  beyondFileBuf _ := 0
  beyondStackBuf _ := 0

def freshServer : PkgRepoServer :=
  { active := true, listenSock := 3, port := 8080, requestsTotal := 0, packagesServed := 0,
    bytesServed := 0 }

/-- What the signing tool makes of a header without payload. -/
def signedFile : Bytes :=
  (headerOf 0).take pkgSignatureOffset ++
    [59, 94, 207, 164, 224, 237, 3, 151, 23, 12, 194, 21, 189, 88, 48, 215,
      38, 162, 235, 19, 81, 95, 111, 79, 161, 136, 0, 242, 222, 218, 165, 109]

/-- A `GET` for a path that names a package comes down to serving it. -/
theorem handleClient_get {env : Env} :
    handleClient env freshServer (ascii "GET /A.PKG HTTP/1.1")
      = servePackage env { freshServer with requestsTotal := 1 } false (ascii "A.PKG" ++ [0]) := by
  rfl

set_option maxRecDepth 4000 in
/-- A header that declares nearly `2 ^ 32` bytes passes the check of its size, and is verified over
all of them. -/
theorem overread_verified (beyond : Memory) :
    ∃ accepted, verifyPkgBytes beyond (headerOf 0xFFFFFFFF)
      = .ok ⟨headerOf 0xFFFFFFFF, 128 + 0xFFFFFFFF, accepted⟩ := by
  have declared : declaredSize (headerOf 0xFFFFFFFF) = 0xFFFFFFFF := by decide
  -- In 32 bits the sum of header and payload is 127.
  have wrapped : (UInt32.ofNat pkgHeaderSize + 0xFFFFFFFF).toNat = 127 := by decide
  obtain ⟨_, _, verdict⟩ := rustPkgVerifySignature_eq
    (bufferMemory beyond (headerOf 0xFFFFFFFF)) pkgHeaderSize 0xFFFFFFFF
  rw [verifyPkgBytes, if_neg (by decide), if_neg (by decide)]
  simp only [declared]
  rw [if_neg (by rw [wrapped]; decide), verdict]
  exact ⟨_, rfl⟩

/-- Three answers that are not sound. A byte after the signed payload is sent with it; a zero byte
in the path makes the server read and send a file without extension; a declared size close to
`2 ^ 32` takes the verification four gigabytes past the 128 bytes that were read. -/
theorem unsound_answers :
    (∃ file after headers check,
      handleClient (oneFile (ascii "A.PKG") file) freshServer (ascii "GET /A.PKG HTTP/1.1")
          = .ok (after, ⟨.package headers file, [ascii "A.PKG"], [check]⟩)
        ∧ check.accepted = true ∧ check.reach < file.length)
    ∧ (∃ file after headers check,
      handleClient (oneFile (ascii "A") file) freshServer (ascii "GET /A" ++ 0 :: ascii " HTTP/1.1")
          = .ok (after, ⟨.package headers file, [ascii "A"], [check]⟩)
        ∧ ¬ NamesPackage (ascii "A"))
    ∧ ∃ after outcome check,
      handleClient (oneFile (ascii "A.PKG") (headerOf 0xFFFFFFFF)) freshServer
          (ascii "GET /A.PKG HTTP/1.1") = .ok (after, outcome)
        ∧ check ∈ outcome.checks ∧ check.contents.length = 128
        ∧ check.reach = 128 + 0xFFFFFFFF := by
  refine ⟨?_, ?_, ?_⟩
  · exact ⟨signedFile ++ [0x21],
      { freshServer with requestsTotal := 1, packagesServed := 1, bytesServed := 129 },
      buildHttp200Headers (ascii "application/octet-stream") 129, ⟨signedFile ++ [0x21], 128, true⟩,
      by decide +kernel, rfl, by decide +kernel⟩
  · exact ⟨signedFile,
      { freshServer with requestsTotal := 1, packagesServed := 1, bytesServed := 128 },
      buildHttp200Headers (ascii "application/octet-stream") 128, ⟨signedFile, 128, true⟩,
      by decide +kernel, by decide +kernel⟩
  · obtain ⟨accepted, verified⟩ :=
      overread_verified (oneFile (ascii "A.PKG") (headerOf 0xFFFFFFFF)).beyondFileBuf
    have read : (oneFile (ascii "A.PKG") (headerOf 0xFFFFFFFF)).vfsReadFile (ascii "A.PKG" ++ [0])
        maxPackageSize = some (headerOf 0xFFFFFFFF) := by decide +kernel
    have length : (headerOf 0xFFFFFFFF).length = 128 := by decide +kernel
    rw [handleClient_get, servePackage, read]
    dsimp only
    rw [if_neg (by rw [length]; decide), verified, ok_bind]
    -- Whatever the verdict, the verification has been made.
    split
    · exact ⟨_, _, _, rfl, mem_singleton_self _, length, rfl⟩
    · exact ⟨_, _, _, rfl, mem_singleton_self _, length, rfl⟩

end NovaOs.Pkg
