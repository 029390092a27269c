import NovaOs.Crypto.Keyed

/-!
Password checks (`kernel/rust/users.rs`) behind the login and sudo system calls
(`kernel/task/process.c`, `kernel/arch/x86/cpu/syscall.c`), and the passwords that stop the machine.
-/

namespace NovaOs.Users

open Slice Sha256

def usernameMax : Nat := 32

def saltLen : Nat := 16

def hashLen : Nat := 32

def pbkdf2Iterations : Nat := 4096

/-- Consecutive failures after which an account refuses every password. -/
def lockoutThreshold : Nat := 5

/-- One slot of the user table. -/
structure UserRecord where
  inUse : Bool
  username : Bytes
  usernameLen : Nat
  uid : UInt32
  gid : UInt32
  salt : Bytes
  passwordHash : Bytes
  failedAttempts : Nat
  username_size : username.length = usernameMax
  /-- Adding and loading accounts both refuse longer names. -/
  username_fits : usernameLen ≤ usernameMax
  salt_size : salt.length = saltLen
  hash_size : passwordHash.length = hashLen

/-- Whether two hashes agree in every byte, all of them compared. -/
def constantTimeEq (a b : Bytes) : Bool :=
  (List.range hashLen).foldl (fun diff i => diff ||| (a.getD i 0 ^^^ b.getD i 0)) 0 == 0

def usernameMatches (record : UserRecord) (name : Bytes) : Except Panic Bool := do
  if record.inUse && record.usernameLen == name.length then
    return (← slice record.username 0 name.length) == name
  else
    return false

/-- A password tried on the account that was found: what becomes of the account, and whether the
password was right. -/
def attempt (record : UserRecord) (password : Bytes) : Except Panic (UserRecord × Bool) := do
  if lockoutThreshold ≤ record.failedAttempts then
    return (record, false)
  else
    let attemptHash ← pbkdf2HmacSha256 password record.salt pbkdf2Iterations
    if constantTimeEq record.passwordHash attemptHash then
      return ({ record with failedAttempts := 0 }, true)
    else
      return ({ record with failedAttempts := record.failedAttempts + 1 }, false)

/-- The user and group a process runs as. -/
structure Identity where
  uid : UInt32
  gid : UInt32
  deriving DecidableEq, Repr

/-- The loop of both checks: the first account that is the one asked for takes the attempt, and the
table keeps what becomes of it. -/
def search {β : Type} (isIt : UserRecord → Except Panic Bool) (verdict : UserRecord → Bool → β)
    (absent : β) (password : Bytes) : List UserRecord → Except Panic (List UserRecord × β)
  | [] => return ([], absent)
  | record :: others => do
    if ← isIt record then
      let (record, right) ← attempt record password
      return (record :: others, verdict record right)
    else
      let (others, outcome) ← search isIt verdict absent password others
      return (record :: others, outcome)

/-- The account of that name decides; its identity is handed out if the password is right. -/
def authenticate (name password : Bytes) (users : List UserRecord) :
    Except Panic (List UserRecord × Option Identity) :=
  search (usernameMatches · name)
    (fun record right => if right then some ⟨record.uid, record.gid⟩ else none) none password users

/-- The account with the caller's number decides; it must be in the admin group as well. -/
def sudoCheck (uid : UInt32) (password : Bytes) (users : List UserRecord) :
    Except Panic (List UserRecord × Bool) :=
  search (fun record => .ok (record.inUse && record.uid == uid))
    (fun record right => right && record.gid == 0) false password users

/-- The machine's state as far as these calls go: the user table and the calling process, if any. -/
structure State where
  users : List UserRecord
  current : Option Identity

/-- A system call that checks a password. -/
inductive Call where
  | sysLogin (username password : Bytes)
  | sysSudo (password : Bytes)
  deriving DecidableEq, Repr

/-- The string tried as a password. -/
def Call.password : Call → Bytes
  | .sysLogin _ password => password
  | .sysSudo password => password

variable (state : State)

def processLogin (username password : Bytes) : Except Panic (State × Bool) := do
  let (users, outcome) ← authenticate username password state.users
  match outcome with
  | none => return ({ state with users }, false)
  | some identity => return ({ users, current := some identity }, true)

def processSudo (caller : Identity) (password : Bytes) : Except Panic (State × Bool) := do
  let (users, right) ← sudoCheck caller.uid password state.users
  if right then
    return ({ users, current := some ⟨0, 0⟩ }, true)
  else
    return ({ state with users }, false)

/-- The check behind each call. -/
def Call.run (caller : Identity) : Call → Except Panic (State × Bool)
  | .sysLogin username password => processLogin state username password
  | .sysSudo password => processSudo state caller password

/-- The two handlers, with what they leave in the result register. -/
def handle (call : Call) : Except Panic (State × Int) :=
  match state.current with
  | none => return (state, -1)
  | some caller => do
    let (state, accepted) ← call.run state caller
    return (state, if accepted then 0 else -1)

/-! Which calls return. -/

/-- An account in use under this name. -/
def UserRecord.named (record : UserRecord) (name : Bytes) : Bool :=
  record.inUse && record.usernameLen == name.length && record.username.take name.length == name

/-- The comparison of names stays inside the name's buffer. -/
theorem usernameMatches_ok (record : UserRecord) (name : Bytes) :
    usernameMatches record name = .ok (record.named name) := by
  have size := record.username_size
  have fits := record.username_fits
  rw [usernameMatches, UserRecord.named]
  split
  · rename_i candidate
    have length : record.usernameLen = name.length := by simp_all
    rw [slice_ok (Nat.zero_le _) (by omega), candidate]
    rfl
  · rename_i other
    rw [Bool.not_eq_true] at other
    rw [other]
    rfl

/-- Whether an account would take a password to the key derivation with more bytes than that
asserts. -/
def Overlong (record : UserRecord) (password : Bytes) : Prop :=
  record.failedAttempts < lockoutThreshold ∧ maxKeyLen < password.length

/-- The account a call is decided by. -/
def Call.account (caller : Identity) : Call → Option UserRecord
  | .sysLogin username _ => state.users.find? (·.named username)
  | .sysSudo _ => state.users.find? fun record => record.inUse && record.uid == caller.uid

/-- The assertion an overlong password fails. -/
theorem attempt_overlong {record : UserRecord} {password : Bytes}
    (overlong : Overlong record password) :
    attempt record password = .error (.assertion "hmac_sha256: key exceeds MAX_KEY_LEN") := by
  have salt : record.salt.length ≤ maxSaltLen := by rw [record.salt_size]; decide
  rw [attempt, if_neg (Nat.not_le.mpr overlong.1),
    pbkdf2HmacSha256_long overlong.2 salt (by decide)]
  rfl

/-- A password tried on an account returns, unless it is overlong and the account is not locked. -/
theorem attempt_returns_iff {record : UserRecord} {password : Bytes} :
    (∃ after, attempt record password = .ok after) ↔ ¬ Overlong record password := by
  by_cases overlong : Overlong record password
  · rw [attempt_overlong overlong]
    exact ⟨nofun, fun fine => absurd overlong fine⟩
  refine ⟨fun _ => overlong, fun _ => ?_⟩
  rw [attempt]
  split
  · exact ⟨_, rfl⟩
  rename_i unlocked
  have bound : password.length ≤ maxKeyLen :=
    Nat.not_lt.mp fun long => overlong ⟨Nat.not_le.mp unlocked, long⟩
  have salt : record.salt.length ≤ maxSaltLen := by rw [record.salt_size]; decide
  obtain ⟨hash, derived, -⟩ := pbkdf2HmacSha256_returns bound salt
    (show 1 ≤ pbkdf2Iterations by decide)
  rw [derived, ok_bind]
  split
  · exact ⟨_, rfl⟩
  · exact ⟨_, rfl⟩

/-- The loop returns unless the account it stops at is taken to the key derivation with an overlong
password. -/
theorem search_returns_iff {β : Type} {isIt : UserRecord → Except Panic Bool}
    {found : UserRecord → Bool} (decided : ∀ record, isIt record = .ok (found record))
    (verdict : UserRecord → Bool → β) (absent : β) {password : Bytes} {users : List UserRecord} :
    (∃ after, search isIt verdict absent password users = .ok after)
      ↔ ∀ record, users.find? found = some record → ¬ Overlong record password := by
  induction users with
  | nil => exact ⟨nofun, fun _ => ⟨_, rfl⟩⟩
  | cons record others ih =>
    rw [search, decided, ok_bind]
    cases hit : found record with
    | true =>
      rw [if_pos rfl, List.find?_cons_of_pos hit, bind_returns_iff, attempt_returns_iff]
      · exact ⟨fun fine _ same => Option.some.inj same ▸ fine, fun safe => safe record rfl⟩
      · exact fun _ => ⟨_, rfl⟩
    | false =>
      -- The rest of the table is searched, and this account is put back in front.
      rw [if_neg Bool.false_ne_true, List.find?_cons_of_neg (by simp [hit]), ← ih]
      exact bind_returns_iff _ fun _ => ⟨_, rfl⟩

/-- Login returns exactly when no account of that name is open to an overlong password. -/
theorem processLogin_returns_iff (username password : Bytes) :
    (∃ after, processLogin state username password = .ok after)
      ↔ ∀ record, state.users.find? (·.named username) = some record →
          ¬ Overlong record password := by
  rw [processLogin, bind_returns_iff, authenticate,
    search_returns_iff fun record => usernameMatches_ok record username]
  rintro ⟨users, _ | identity⟩
  · exact ⟨_, rfl⟩
  · exact ⟨_, rfl⟩

/-- Sudo returns exactly when the caller's account is not open to an overlong password. -/
theorem processSudo_returns_iff (caller : Identity) (password : Bytes) :
    (∃ after, processSudo state caller password = .ok after)
      ↔ ∀ record, state.users.find? (fun record => record.inUse && record.uid == caller.uid)
          = some record → ¬ Overlong record password := by
  rw [processSudo, bind_returns_iff, sudoCheck, search_returns_iff fun record => rfl]
  rintro ⟨users, _ | _⟩
  · exact ⟨_, rfl⟩
  · exact ⟨_, rfl⟩

/-- A call returns accept or reject, and the machine goes on. -/
def Survives (call : Call) : Prop :=
  ∃ after result, handle state call = .ok (after, result) ∧ (result = 0 ∨ result = -1)

/-- Whatever the outcome of a check, the handler leaves one of its two results. -/
theorem survives_iff {state : State} {caller : Identity} (present : state.current = some caller)
    {call : Call} : Survives state call ↔ ∃ after, call.run state caller = .ok after := by
  rw [Survives, handle, present]
  dsimp only
  generalize call.run state caller = run
  constructor
  · rintro ⟨after, result, returned, -⟩
    exact (bind_returns_iff run fun _ => ⟨_, rfl⟩).mp ⟨_, returned⟩
  · rintro ⟨⟨after, accepted⟩, rfl⟩
    refine ⟨after, _, rfl, ?_⟩
    cases accepted with
    | true => exact .inl rfl
    | false => exact .inr rfl

/-- A call that checks a password returns accept or reject exactly if it names no account that is
open to attempts, or its password is within the bound on keys. -/
theorem call_returns_iff (state : State) (call : Call) :
    Survives state call
      ↔ ∀ caller, state.current = some caller → ∀ record, call.account state caller = some record →
          ¬ Overlong record call.password := by
  cases present : state.current with
  | none =>
    refine ⟨fun _ => nofun, fun _ => ⟨state, -1, ?_, .inr rfl⟩⟩
    rw [handle, present]
    rfl
  | some caller => ?_
  rw [survives_iff present]
  have one : (∀ c, some caller = some c → ∀ record, call.account state c = some record →
        ¬ Overlong record call.password)
      ↔ ∀ record, call.account state caller = some record → ¬ Overlong record call.password :=
    ⟨fun all => all caller rfl, fun this c same => Option.some.inj same ▸ this⟩
  rw [one]
  cases call with
  | sysLogin username password => exact processLogin_returns_iff state username password
  | sysSudo password => exact processSudo_returns_iff state caller password

/-- An account with a name of one letter, in the group of those who may use `sudo`. -/
def account (letter : UInt8) (uid : UInt32) (hash : Bytes) (size : hash.length = hashLen) :
    UserRecord where
  inUse := true
  username := letter :: List.replicate 31 0
  usernameLen := 1
  uid
  gid := 0
  salt := List.replicate 16 0
  passwordHash := hash
  failedAttempts := 0
  username_size := rfl
  username_fits := by decide
  salt_size := rfl
  hash_size := size

/-- An account named "r" in an otherwise empty table, and the process of its owner. -/
def oneAccount : State where
  users := [account 0x72 0 (List.replicate 32 0) rfl]
  current := some ⟨0, 0⟩

/-- A password of 128 bytes is answered. -/
theorem call_returns_longest :
    Survives oneAccount (.sysLogin [0x72] (List.replicate 128 0x41)) := by
  rw [call_returns_iff]
  rintro caller - record - ⟨-, long⟩
  simp [Call.password, maxKeyLen] at long

/-- One byte more, and the assertion on the key stops the machine, in login and in sudo. -/
theorem overlong_password_panics :
    handle oneAccount (.sysLogin [0x72] (List.replicate 129 0x41))
        = .error (.assertion "hmac_sha256: key exceeds MAX_KEY_LEN")
    ∧ handle oneAccount (.sysSudo (List.replicate 129 0x41))
        = .error (.assertion "hmac_sha256: key exceeds MAX_KEY_LEN") := by
  have long : maxKeyLen < (List.replicate 129 (0x41 : UInt8)).length := by
    rw [List.length_replicate]
    decide
  generalize List.replicate 129 (0x41 : UInt8) = password at long
  -- The only account is open, so the derivation is reached with the whole password.
  have stopped : ∀ record, record.failedAttempts = 0 →
      attempt record password = .error (.assertion "hmac_sha256: key exceeds MAX_KEY_LEN") :=
    fun record open_ => attempt_overlong ⟨by rw [open_]; decide, long⟩
  constructor
  · rw [handle, oneAccount]
    simp only [Call.run, processLogin, authenticate, search]
    rw [usernameMatches_ok, ok_bind, if_pos (by decide), stopped _ rfl]
    rfl
  · rw [handle, oneAccount]
    simp only [Call.run, processSudo, sudoCheck, search]
    rw [ok_bind, if_pos (by decide), stopped _ rfl]
    rfl

end NovaOs.Users
