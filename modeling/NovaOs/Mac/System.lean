import NovaOs.Mac.Engine

/-! Processes under confinement: who is asked what, and how a process comes by its stack. -/

namespace NovaOs.Confine

abbrev Pid := Nat

/-- Something a process may be refused. -/
inductive Action where
  | syscall (sysno : UInt32)
  | file (name : List UInt8) (op : UInt8)
  | net (op : UInt8) (ip : UInt32) (port : UInt16)
  | exec (name : List UInt8)
  deriving DecidableEq, Repr

/-- Asks about an action; a negative answer is a refusal. -/
def Mac.check (mac : Mac) (stack : List UInt16) (pid : Pid) : Action → Int × Mac
  | .syscall sysno => mac.checkSyscall stack pid sysno
  | .file name op => mac.checkFile stack pid name op
  | .net op ip port => mac.checkNet stack pid op ip port
  | .exec name => mac.checkExec stack pid name

/-- What confines a process, and who forked or started it. -/
structure Proc where
  stack : List UInt16 := []
  isUser : Bool
  parent : Option Pid := none
  deriving DecidableEq, Repr

-- The buffer that a program's path is copied to.
def pathCap : Nat := 64

/-- The kernel's copy of a path: a user's must fit, the kernel's own is cut off. -/
def copyPath (isUser : Bool) (path : List UInt8) : Option (List UInt8) :=
  if isUser then if path.length + 1 < pathCap then some path else none
  else some (path.take (pathCap - 1))

/-- A program's base name up to the first dot. -/
def baseOf (path : List UInt8) : List UInt8 :=
  (path.takeWhile (· != 46)).take nameLen

/-- The kernel's processes and its table of profiles. -/
structure System where
  mac : Mac := {}
  procs : Pid → Option Proc := fun _ => none
  nextPid : Pid := 1
  -- The names and texts of the profiles that have been loaded so far.
  loaded : List (List UInt8 × List UInt8) := []

/-- What the kernel does for its processes, as far as confinement is concerned. -/
inductive Op where
  | load (name text : List UInt8)
  | freeze
  -- A task of the kernel's own, which starts unconfined.
  | spawn (isUser : Bool)
  | fork (parent : Pid)
  -- The file system answers as it will, and starting the program may still fail afterwards.
  | exec (spawner : Option Pid) (path : Option (List UInt8))
      (readFile : List UInt8 → Option (List UInt8)) (starts : Bool)
  | check (pid : Pid) (action : Action)

namespace System

/-- Loads a profile, and remembers its text if it could be loaded. -/
def load (system : System) (name text : List UInt8) : Except LoadError UInt16 × System :=
  match system.mac.load name text with
  | (.ok id, mac) => (.ok id, { system with mac := mac, loaded := (name, text) :: system.loaded })
  | (.error error, mac) => (.error error, { system with mac := mac })

/-- Asks about an action of a process. -/
def check (system : System) (stack : List UInt16) (pid : Pid) (action : Action) : Int × System :=
  let (v, mac) := system.mac.check stack pid action
  (v, { system with mac := mac })

variable (system : System)

/-- The program's own profile, read from the file named after it; zero is none. -/
def ownProfile (path : List UInt8) (readFile : List UInt8 → Option (List UInt8)) :
    Except LoadError UInt16 × System :=
  let base := baseOf path
  if base.length != 0 && base.length ≤ 8 then
    match readFile (base ++ ascii ".MAC") with
    | some text => system.load base text
    | none => (.ok 0, system)
  else (.ok 0, system)

/-- Decides whether a program may start, and under which profiles. -/
def macPrepareExec (spawner : Option (Pid × Proc)) (path : Option (List UInt8))
    (readFile : List UInt8 → Option (List UInt8)) : Option (List UInt16) × System :=
  match path.bind (copyPath (spawner.any (·.2.isUser))) with
  | none => (none, system)
  | some path =>
    let stack := (spawner.map (·.2.stack)).getD []
    -- The spawner's own profiles must let it start this program.
    let (v, system) := system.check stack ((spawner.map (·.1)).getD 0) (.exec path)
    if v < 0 then (none, system)
    else
      -- A profile that is there but cannot be used means the program does not start.
      match system.ownProfile path readFile with
      | (.error _, system) => (none, system)
      | (.ok newId, system) =>
        match Mac.execStack stack newId with
        | .error _ => (none, system)
        | .ok stack => (some stack, system)

/-- A new process, under a pid never used before. -/
def create (proc : Proc) : System :=
  { system with
    procs := Function.update system.procs system.nextPid (some proc)
    nextPid := system.nextPid + 1 }

/-- A program is started, by a process or by the kernel itself. -/
def exec (spawner : Option (Pid × Proc)) (path : Option (List UInt8))
    (readFile : List UInt8 → Option (List UInt8)) (starts : Bool) : System :=
  match system.macPrepareExec spawner path readFile with
  | (none, system) => system
  | (some stack, system) =>
    if starts then
      system.create { stack := stack, isUser := true, parent := spawner.map (·.1) }
    else system

/-- One operation; a process that does not exist does nothing. -/
def step : Op → System
  | .load name text => (system.load name text).2
  | .freeze => { system with mac := system.mac.freeze }
  | .spawn isUser => system.create { isUser := isUser }
  | .fork parent =>
    match system.procs parent with
    | some proc => system.create { stack := proc.stack, isUser := true, parent := some parent }
    | none => system
  | .exec none path readFile starts => system.exec none path readFile starts
  | .exec (some pid) path readFile starts =>
    match system.procs pid with
    | some proc => system.exec (some (pid, proc)) path readFile starts
    | none => system
  | .check pid action =>
    match system.procs pid with
    | some proc => (system.check proc.stack pid action).2
    | none => system

/-- A whole history of operations, oldest first. -/
def run (ops : List Op) : System := ops.foldl step system

/-- A process is refused an action. -/
def Refuses (pid : Pid) (action : Action) : Prop :=
  ∃ proc, system.procs pid = some proc ∧ (system.mac.check proc.stack pid action).1 < 0

/-- A process is another, or was forked or started by one of its descendants. -/
inductive Descends (system : System) (ancestor : Pid) : Pid → Prop where
  | self : Descends system ancestor ancestor
  | child {pid child : Pid} {proc : Proc} (parent : Descends system ancestor pid)
      (born : system.procs child = some proc) (by_ : proc.parent = some pid) :
      Descends system ancestor child

end System

end NovaOs.Confine
