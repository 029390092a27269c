import NovaOs.Users.Login

/-! Accounts that refuse all passwords after too many wrong ones, over any calls of both checks. -/

namespace NovaOs.Users

open Slice Sha256 List

/-- A call of one of the two checks. -/
inductive Check where
  | authenticate (name password : Bytes)
  | sudoCheck (uid : UInt32) (password : Bytes)

namespace Check

def password : Check → Bytes
  | authenticate _ password => password
  | sudoCheck _ password => password

/-- The accounts a call can be about. -/
def on : Check → UserRecord → Bool
  | authenticate name _, record => record.named name
  | sudoCheck uid _, record => record.inUse && record.uid == uid

/-- Whether a call accepts a right password for an account. -/
def admits : Check → UserRecord → Bool
  | authenticate .., _ => true
  | sudoCheck .., record => record.gid == 0

/-- The table after a call, and whether the call accepts. -/
def run (users : List UserRecord) : Check → Except Panic (List UserRecord × Bool)
  | authenticate name password => do
    let (users, identity) ← Users.authenticate name password users
    return (users, identity.isSome)
  | sudoCheck uid password => Users.sudoCheck uid password users

/-- The table after calls, the last of them first in the list. -/
def runAll (users : List UserRecord) : List Check → Except Panic (List UserRecord)
  | [] => return users
  | check :: earlier => do
    let (users, _) ← check.run (← runAll users earlier)
    return users

end Check

open Check

namespace UserRecord

variable (record : UserRecord)

def name : Bytes := record.username.take record.usernameLen

/-- Whether the hash that is derived from a password is the account's. -/
def right (password : Bytes) : Bool :=
  match pbkdf2HmacSha256 password record.salt pbkdf2Iterations with
  | .ok hash => constantTimeEq record.passwordHash hash
  | .error _ => false

def locked : Bool := lockoutThreshold ≤ record.failedAttempts

/-- The account after a password has been tried on it. -/
def tried (password : Bytes) : UserRecord :=
  if record.locked then record
  else
    { record with
      failedAttempts := if record.right password then 0 else record.failedAttempts + 1 }

/-- The account after passwords, the last of them first in the list. -/
def triedAll : List Bytes → UserRecord
  | [] => record
  | password :: earlier => (triedAll earlier).tried password

/-- The passwords that calls try on an account. -/
def tries (checks : List Check) : List Bytes := (checks.filter (·.on record)).map password

/-- How many passwords in a row have been wrong, with the failures on record before them. -/
def streak : List Bytes → Nat
  | [] => record.failedAttempts
  | password :: earlier => if record.right password then 0 else streak earlier + 1

/-- So many in a row have been wrong at some time that the account is to be locked. -/
def LockedOut : List Bytes → Prop
  | [] => lockoutThreshold ≤ record.streak []
  | password :: earlier =>
    LockedOut earlier ∨ lockoutThreshold ≤ record.streak (password :: earlier)

end UserRecord

open UserRecord

/-- No two accounts in use have the same name or the same number. -/
def Distinct (users : List UserRecord) : Prop :=
  users.Pairwise fun a b => a.inUse = true → b.inUse = true → a.name ≠ b.name ∧ a.uid ≠ b.uid

section

variable {users : List UserRecord} {record : UserRecord} {check : Check} {password : Bytes}
  {passwords : List Bytes}

theorem attempt_eq (record : UserRecord) (short : password.length ≤ maxKeyLen) :
    attempt record password
      = .ok (record.tried password, !record.locked && record.right password) := by
  have salt : record.salt.length ≤ maxSaltLen := by rw [record.salt_size]; decide
  obtain ⟨hash, derived, -⟩ := pbkdf2HmacSha256_returns short salt
    (show 1 ≤ pbkdf2Iterations by decide)
  simp only [attempt, tried, locked, right, derived, ok_bind, decide_eq_true_eq]
  by_cases full : lockoutThreshold ≤ record.failedAttempts
  · simp [full]
    rfl
  · cases same : constantTimeEq record.passwordHash hash with
    | true => simp [full]; rfl
    | false => simp [full]; rfl

/-- Passwords change nothing of an account but its failures. -/
theorem triedAll_alike (record : UserRecord) (passwords : List Bytes) :
    ∃ n, record.triedAll passwords = { record with failedAttempts := n } := by
  induction passwords with
  | nil => exact ⟨_, rfl⟩
  | cons password earlier ih =>
    obtain ⟨n, same⟩ := ih
    rw [triedAll, same, tried]
    split <;> exact ⟨_, rfl⟩

theorem on_failures (check : Check) (record : UserRecord) (n : Nat) :
    check.on { record with failedAttempts := n } = check.on record := by
  cases check <;> rfl

/-- With one account at most to be found, the search tries the password on it alone. -/
theorem search_eq {β : Type} {isIt : UserRecord → Except Panic Bool} {found : UserRecord → Bool}
    (decided : ∀ record, isIt record = .ok (found record)) (verdict : UserRecord → Bool → β)
    (absent : β) (short : password.length ≤ maxKeyLen)
    (alone : users.Pairwise fun a b => found a = true → found b = false) :
    search isIt verdict absent password users
      = .ok (users.map fun r => if found r then r.tried password else r,
          ((users.find? found).map fun r =>
            verdict (r.tried password) (!r.locked && r.right password)).getD absent) := by
  induction users with
  | nil => rfl
  | cons record others ih =>
    obtain ⟨first, onward⟩ := pairwise_cons.1 alone
    rw [search, decided, ok_bind, map_cons]
    cases hit : found record with
    | true =>
      -- The others are not it, and stay as they are.
      have rest : (others.map fun r => if found r then r.tried password else r) = others := by
        conv_rhs => rw [← map_id others]
        exact map_congr_left fun r member => by simp [first r member hit]
      rw [if_pos rfl, if_pos rfl, attempt_eq record short, ok_bind, rest,
        List.find?_cons_of_pos hit]
      rfl
    | false =>
      rw [if_neg Bool.false_ne_true, if_neg Bool.false_ne_true, ih onward, ok_bind,
        List.find?_cons_of_neg (by simp [hit])]
      rfl

theorem Distinct.alone (distinct : Distinct users) (check : Check) :
    users.Pairwise fun a b => check.on a = true → check.on b = false := by
  refine List.Pairwise.imp ?_ distinct
  intro a b apart mine
  rw [← Bool.not_eq_true]
  intro its
  cases check with
  | authenticate name password =>
    simp only [on, named, Bool.and_eq_true, beq_iff_eq] at mine its
    refine (apart mine.1.1 its.1.1).1 ?_
    rw [UserRecord.name, UserRecord.name, mine.1.2, its.1.2, mine.2, its.2]
  | sudoCheck uid password =>
    simp only [on, Bool.and_eq_true, beq_iff_eq] at mine its
    exact (apart mine.1 its.1).2 (mine.2.trans its.2.symm)

/-- A call tries its password on the accounts it is about, and on no other. -/
theorem run_eq (distinct : Distinct users) (short : check.password.length ≤ maxKeyLen) :
    check.run users
      = .ok (users.map fun r => if check.on r then r.tried check.password else r,
          (users.find? check.on).any fun r =>
            !r.locked && r.right check.password && check.admits r) := by
  cases check with
  | authenticate name password =>
    have found := search_eq (usernameMatches_ok · name) (fun record right =>
      if right then some (Identity.mk record.uid record.gid) else none) none short
      (distinct.alone (.authenticate name password))
    rw [run, authenticate]
    -- Only the answer remains: an identity is given out exactly to the right password.
    refine (congrArg (· >>= _) found).trans (congrArg Except.ok (Prod.ext rfl ?_))
    change Option.isSome (Option.getD (Option.map _ (users.find? (·.named name))) none)
      = (users.find? (·.named name)).any _
    cases users.find? (·.named name) with
    | none => rfl
    | some r =>
      change Option.isSome (if (!r.locked && r.right password) = true then some _ else none)
        = (!r.locked && r.right password && true)
      cases !r.locked && r.right password <;> rfl
  | sudoCheck uid password =>
    have found :=
      search_eq (fun _ => rfl) (fun record right => right && record.gid == 0) false short
      (distinct.alone (.sudoCheck uid password))
    refine found.trans (congrArg Except.ok (Prod.ext rfl ?_))
    dsimp only
    cases users.find? (Check.sudoCheck uid password).on with
    | none => rfl
    | some r =>
      obtain ⟨n, same⟩ := triedAll_alike r [password]
      exact congrArg (_ && ·.gid == 0) same

theorem Distinct.tried (distinct : Distinct users) (passwords : UserRecord → List Bytes) :
    Distinct (users.map fun r => r.triedAll (passwords r)) := by
  refine pairwise_map.2 (distinct.imp fun {a b} apart => ?_)
  obtain ⟨m, left⟩ := triedAll_alike a (passwords a)
  obtain ⟨n, right⟩ := triedAll_alike b (passwords b)
  rw [left, right]
  exact apart

/-- After calls each account is as its own passwords leave it. -/
theorem runAll_eq (distinct : Distinct users) {checks : List Check}
    (short : ∀ check ∈ checks, check.password.length ≤ maxKeyLen) :
    runAll users checks = .ok (users.map fun r => r.triedAll (r.tries checks)) := by
  induction checks with
  | nil => exact congrArg Except.ok (map_id users).symm
  | cons check earlier ih =>
    obtain ⟨now, before⟩ := forall_mem_cons.1 short
    rw [runAll, ih before, ok_bind, run_eq (distinct.tried _) now, ok_bind]
    refine congrArg Except.ok (map_map.trans (map_congr_left fun r _ => ?_))
    obtain ⟨n, same⟩ := triedAll_alike r (r.tries earlier)
    rw [Function.comp, same, on_failures, ← same]
    cases own : check.on r with
    | true => simp [tries, own, triedAll]
    | false => simp [tries, own]

theorem find_own {found : UserRecord → Bool}
    (alone : users.Pairwise fun a b => found a = true → found b = false) (member : record ∈ users)
    (own : found record = true) : users.find? found = some record := by
  induction users with
  | nil => cases member
  | cons first others ih =>
    obtain ⟨apart, onward⟩ := pairwise_cons.1 alone
    rcases mem_cons.1 member with rfl | member
    · exact List.find?_cons_of_pos own
    · have other : found first ≠ true := fun hit => by simp [apart record member hit] at own
      rw [List.find?_cons_of_neg other, ih onward member]

/-- The failures of an account are the wrong passwords in a row, until there are so many that it is
locked for good. -/
theorem locked_iff (record : UserRecord) (passwords : List Bytes) :
    ((record.triedAll passwords).locked = true ↔ record.LockedOut passwords) ∧
      (¬record.LockedOut passwords →
        (record.triedAll passwords).failedAttempts = record.streak passwords) := by
  induction passwords with
  | nil => exact ⟨decide_eq_true_iff, fun _ => rfl⟩
  | cons password earlier ih =>
    rw [triedAll, tried]
    cases full : (record.triedAll earlier).locked with
    | true => simp [full, LockedOut, ih.1.1 full]
    | false => ?_
    have open_ : ¬record.LockedOut earlier := fun out => by simp [ih.1.2 out] at full
    obtain ⟨n, same⟩ := triedAll_alike record earlier
    have alike : (record.triedAll earlier).right = record.right := by
      rw [same]
      rfl
    simp only [LockedOut, open_, false_or, locked, streak, alike, ih.2 open_]
    cases record.right password <;> simp [lockoutThreshold]

/-- Any calls of both checks, and one more about an account: it accepts exactly the right password
of an account that it admits and that its own earlier passwords have not locked out, and the
failures of the account are then forgotten. -/
theorem account_lockout (distinct : Distinct users) (member : record ∈ users) {checks : List Check}
    (short : ∀ c ∈ check :: checks, c.password.length ≤ maxKeyLen) (own : check.on record = true) :
    ∃ before after accepted,
      runAll users checks = .ok before ∧ check.run before = .ok (after, accepted) ∧
      (accepted = true ↔ record.right check.password = true ∧ check.admits record = true ∧
        ¬record.LockedOut (record.tries checks)) ∧
      (record.right check.password = true → ¬record.LockedOut (record.tries checks) →
        ∃ cleared ∈ after, check.on cleared = true ∧ cleared.failedAttempts = 0) := by
  obtain ⟨now, before⟩ := forall_mem_cons.1 short
  have kept := distinct.tried (·.tries checks)
  obtain ⟨n, same⟩ := triedAll_alike record (record.tries checks)
  have about : check.on (record.triedAll (record.tries checks)) = true := by
    rw [same, on_failures, own]
  have here := mem_map_of_mem (f := fun r : UserRecord => r.triedAll (r.tries checks)) member
  have locked := (locked_iff record (record.tries checks)).1
  refine ⟨_, _, _, runAll_eq distinct before, run_eq kept now, ?_, fun right open_ => ?_⟩
  · rw [find_own (kept.alone check) here about, Option.any_some, ← locked, same]
    cases check <;> simp [and_assoc, and_comm, admits, right]
  refine ⟨_, mem_map_of_mem here, ?_⟩
  have unlocked : (record.triedAll (record.tries checks)).locked = false := by
    rw [← Bool.not_eq_true, locked]
    exact open_
  have hit : (record.triedAll (record.tries checks)).right check.password = true := by
    rw [same]
    exact right
  rw [if_pos about, tried, if_neg (by simp [unlocked]), hit]
  exact ⟨(on_failures check _ 0).trans about, rfl⟩

end

/-- A hash that differs in its first byte is not taken for the right one. -/
theorem constantTimeEq_first {a b : Bytes} (differ : a.getD 0 0 ≠ b.getD 0 0) :
    constantTimeEq a b = false := by
  -- A difference that has been gathered stays.
  have kept : ∀ (f : Nat → UInt8) (xs : List Nat) {diff : UInt8}, diff ≠ 0 →
      xs.foldl (fun diff i => diff ||| f i) diff ≠ 0 := by
    intro f xs
    induction xs with
    | nil => exact id
    | cons i xs ih => exact fun some_bit => ih fun none => some_bit (UInt8.or_eq_zero_iff.mp none).1
  rw [constantTimeEq, show List.range hashLen = 0 :: (List.range 31).map (· + 1) from rfl,
    foldl_cons, beq_eq_false_iff_ne]
  refine kept _ _ fun none => differ ?_
  exact UInt8.xor_eq_zero_iff.mp (UInt8.or_eq_zero_iff.mp none).2

/-- Five times the same password on the first of two accounts, through both checks, and a call about
the second between them. -/
def attempts : List Check :=
  [.sudoCheck 0 [0x41], .authenticate [0x72] [0x41], .sudoCheck 7 [0x42], .sudoCheck 0 [0x41],
    .authenticate [0x72] [0x41], .authenticate [0x72] [0x41]]

/-- If that password is wrong, no password is accepted for the account afterwards. -/
theorem account_lockout_five :
    ∃ first second before, first.right [0x41] = false ∧
      runAll [first, second] attempts = .ok before ∧
      ∀ password, password.length ≤ maxKeyLen →
        ∃ after, (Check.authenticate [0x72] password).run before = .ok (after, false) := by
  obtain ⟨hash, derived, size⟩ := @pbkdf2HmacSha256_returns [0x41] (List.replicate 16 0) _
    (by decide) (by decide) (show 1 ≤ pbkdf2Iterations by decide)
  have other : (hash.map (· + 1)).length = hashLen := by rwa [length_map]
  have wrong : (account 0x72 0 _ other).right [0x41] = false := by
    rw [right, show (account 0x72 0 _ other).salt = List.replicate 16 0 from rfl, derived]
    refine constantTimeEq_first (b := hash) ?_
    cases hash with
    | nil => cases size
    | cons byte rest => simp [account]
  have tries : (account 0x72 0 _ other).tries attempts = List.replicate 5 [0x41] := rfl
  have out : (account 0x72 0 _ other).LockedOut (List.replicate 5 [0x41]) := by
    simp [List.replicate, LockedOut, streak, wrong, lockoutThreshold]
  have ran (password : Bytes) (short : password.length ≤ maxKeyLen) :=
    @account_lockout [account 0x72 0 _ other, account 0x73 7 _ other] _
      (.authenticate [0x72] password)
      (by simp [Distinct, account, UserRecord.name]) (.head _) attempts
      (forall_mem_cons.mpr ⟨short, by decide⟩) rfl
  obtain ⟨before, -, -, known, -⟩ := ran [] (by decide)
  refine ⟨_, _, before, wrong, known, fun password short => ?_⟩
  obtain ⟨same, after, accepted, again, answered, accepts, -⟩ := ran password short
  obtain rfl := Except.ok.inj (known.symm.trans again)
  cases accepted with
  | false => exact ⟨after, answered⟩
  | true => exact absurd (tries ▸ out) (accepts.mp rfl).2.2

end NovaOs.Users
