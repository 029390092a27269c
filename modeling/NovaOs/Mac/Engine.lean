import NovaOs.Mac.Parse
import NovaOs.Lib.Table

/-! The table of loaded profiles, and how a stack of them is asked. -/

namespace NovaOs.Confine

inductive Errno where
  | eperm
  | e2big
  | einval
  | enospc
  deriving DecidableEq, Repr

/-- What a question was about. -/
inductive Kind where
  | syscall
  | file
  | net
  | exec
  deriving DecidableEq, Repr

/-- The answer for a stack entry that names nothing. -/
def denierInvalid : Int := 255

/-- A loaded profile. -/
structure Slot where
  inUse : Bool := false
  name : List UInt8 := []
  policy : Policy := {}
  allowed : UInt32 := 0
  denied : UInt32 := 0
  complained : UInt32 := 0
  deriving DecidableEq, Repr

/-- A refusal, or a complaint, worth remembering. -/
structure AuditRec where
  kind : Kind
  complained : Bool
  pid : Int
  profile : UInt16
  a : UInt32
  b : UInt32
  deriving DecidableEq, Repr

structure Mac where
  slots : Fin maxProfiles → Slot := fun _ => {}
  frozen : Bool := false
  totalAllowed : UInt32 := 0
  totalDenied : UInt32 := 0
  totalComplained : UInt32 := 0
  audit : Fin auditLen → Option AuditRec := fun _ => none
  auditNext : UInt32 := 0

inductive LoadError where
  | badName
  | parse (error : ParseError)
  | full
  | frozen
  deriving DecidableEq, Repr

def LoadError.errno : LoadError → Errno
  | .badName | .parse _ => .einval
  | .full => .enospc
  | .frozen => .eperm

/-- Letters, digits, underscores and dashes. -/
def validProfileName (n : List UInt8) : Bool :=
  !n.isEmpty && n.length ≤ nameLen && n.all fun b => isAlphanumeric b || b == 95 || b == 45

namespace Mac

variable (mac : Mac)

/-- One way until reboot: no profile can be loaded or changed afterwards. -/
def freeze : Mac := { mac with frozen := true }

/-- The number of a slot; zero is no profile. -/
def idOf (i : Fin maxProfiles) : UInt16 := UInt16.ofNat (i.val + 1)

/-- Changes one slot. -/
def setSlot (i : Fin maxProfiles) (s : Slot) : Mac :=
  { mac with slots := Function.update mac.slots i s }

/-- Reads a profile and installs it under a name, unless the same one is there already. -/
def load (name text : List UInt8) : Except LoadError UInt16 × Mac :=
  if !validProfileName name then (.error .badName, mac)
  else
    match parse text with
    | .error error => (.error (.parse error), mac)
    | .ok policy =>
      match Table.first? (fun s => s.inUse && s.name == name && s.policy == policy) mac.slots with
      | some i => (.ok (idOf i), mac)
      | none =>
        if mac.frozen then (.error .frozen, mac)
        else
          match Table.first? (fun s => !s.inUse) mac.slots with
          | none => (.error .full, mac)
          | some i =>
            (.ok (idOf i), mac.setSlot i { inUse := true, name := name, policy := policy })

/-- The stack of a process that starts a program: its parent's, and the program's own profile. -/
def execStack (parent : List UInt16) (newId : UInt16) : Except Errno (List UInt16) :=
  if parent.length > maxStack then .error .e2big
  else if newId != 0 && !parent.contains newId then
    if parent.length ≥ maxStack then .error .e2big else .ok (parent ++ [newId])
  else .ok parent

/-- Remembers a refusal or complaint, over the oldest one. -/
def record (rec_ : AuditRec) : Mac :=
  let oldest : Fin auditLen := ⟨mac.auditNext.toNat % auditLen, Nat.mod_lt _ (by decide)⟩
  { mac with
    audit := Function.update mac.audit oldest (some rec_)
    auditNext := mac.auditNext + 1 }

/-- The slot a stack entry names, if it names one. -/
def slotOf? (id : UInt16) : Option (Fin maxProfiles) :=
  if inside : 0 < id.toNat ∧ id.toNat ≤ maxProfiles then
    let i : Fin maxProfiles := ⟨id.toNat - 1, by omega⟩
    if (mac.slots i).inUse then some i else none
  else none

/-- Asks the profiles of a stack one after another; the first that refuses decides. -/
def evalLoop (kind : Kind) (pid : Int) (a b : UInt32) (allowed : Policy → Bool) :
    List UInt16 → UInt16 → Mac → Int × Mac
  | [], firstComplain, mac =>
    (firstComplain.toNat, { mac with totalAllowed := mac.totalAllowed + 1 })
  | id :: ids, firstComplain, mac =>
    match mac.slotOf? id with
    | none =>
      let mac := { mac with totalDenied := mac.totalDenied + 1 }
      (-denierInvalid, mac.record ⟨kind, false, pid, 0, a, b⟩)
    | some i =>
      let s := mac.slots i
      if allowed s.policy then
        evalLoop kind pid a b allowed ids firstComplain
          (mac.setSlot i { s with allowed := s.allowed + 1 })
      else if s.policy.complain then
        let mac := mac.setSlot i { s with complained := s.complained + 1 }
        let mac := { mac with totalComplained := mac.totalComplained + 1 }
        evalLoop kind pid a b allowed ids (if firstComplain == 0 then id else firstComplain)
          (mac.record ⟨kind, true, pid, id, a, b⟩)
      else
        let mac := mac.setSlot i { s with denied := s.denied + 1 }
        let mac := { mac with totalDenied := mac.totalDenied + 1 }
        (-(id.toNat : Int), mac.record ⟨kind, false, pid, id, a, b⟩)

/-- Zero if every profile allows, positive if only a complaining one does not, else negative. -/
def eval (stack : List UInt16) (kind : Kind) (pid : Int) (a b : UInt32) (allowed : Policy → Bool) :
    Int × Mac :=
  if stack.isEmpty then (0, mac)
  else if stack.length > maxStack then
    (-denierInvalid, { mac with totalDenied := mac.totalDenied + 1 })
  else evalLoop kind pid a b allowed stack 0 mac

def checkSyscall (stack : List UInt16) (pid : Int) (sysno : UInt32) : Int × Mac :=
  mac.eval stack .syscall pid sysno 0 (·.allowsSyscall sysno)

/-- A name too long to be a pattern's target is refused, not matched by a part of it. -/
def checkedName (name : List UInt8) : List UInt8 :=
  if name.length > 64 then [] else name

def checkFile (stack : List UInt16) (pid : Int) (name : List UInt8) (op : UInt8) : Int × Mac :=
  let name := checkedName name
  mac.eval stack .file pid op.toUInt32 (UInt32.ofNat name.length)
    fun p => !name.isEmpty && p.allowsFile name op

def checkNet (stack : List UInt16) (pid : Int) (op : UInt8) (ip : UInt32) (port : UInt16) :
    Int × Mac :=
  mac.eval stack .net pid op.toUInt32 ((port.toUInt32 <<< 16) ^^^ (ip >>> 16))
    (·.allowsNet op ip port)

def checkExec (stack : List UInt16) (pid : Int) (name : List UInt8) : Int × Mac :=
  let name := checkedName name
  mac.eval stack .exec pid (UInt32.ofNat name.length) 0
    fun p => !name.isEmpty && p.allowsExec name

end Mac

end NovaOs.Confine
