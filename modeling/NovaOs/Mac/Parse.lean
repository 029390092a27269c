import NovaOs.Mac.Policy

/-! How the text of a profile is read. -/

namespace NovaOs.Confine

/-- Why a profile was refused, and on which line. -/
inductive ParseError where
  | tooLarge
  | badByte
  | lineTooLong (line : Nat)
  | syntaxError (line : Nat)
  | unknownSyscall (line : Nat)
  | badPattern (line : Nat)
  | badAddress (line : Nat)
  | tooManyRules (line : Nat)
  | duplicateMode (line : Nat)
  deriving DecidableEq, Repr

def isAlphanumeric (b : UInt8) : Bool :=
  (48 ≤ b && b ≤ 57) || (65 ≤ b && b ≤ 90) || (97 ≤ b && b ≤ 122)

/-- Letters, digits, and `. _ - ~ $ * ?`. -/
def validPattern (p : List UInt8) : Bool :=
  !p.isEmpty && p.length ≤ patLen
    && p.all fun b => isAlphanumeric b || (ascii "._-~$*?").contains b

/-- Any port, one port, or a range of ports. -/
def parsePorts (s : List UInt8) : Option (UInt16 × UInt16) :=
  if s == ascii "*" then some (0, 65535)
  else
    let dash := s.findIdx (· == 45)
    if dash = s.length then do
      let v ← parseU32Dec s 65535
      return (UInt16.ofNat v, UInt16.ofNat v)
    else do
      let lo ← parseU32Dec (s.take dash) 65535
      let hi ← parseU32Dec (s.drop (dash + 1)) 65535
      if lo ≤ hi then return (UInt16.ofNat lo, UInt16.ofNat hi) else none

/-- The number of a syscall, whatever case its name is written in. -/
def lookupSyscall (name : List UInt8) : Option Nat :=
  ((syscallNames.zipIdx.drop 1).find? fun candidate =>
    (ascii candidate.1).map foldCase == name.map foldCase).map Prod.snd

/-- Letters that each stand for one bit, taken together. -/
def parseBits (ln : Nat) (bitOf : UInt8 → Option UInt8) (letters : List UInt8) :
    Except ParseError UInt8 :=
  letters.foldlM (fun bits letter =>
    match bitOf letter with
    | some bit => .ok (bits ||| bit)
    | none => .error (.syntaxError ln)) 0

def fileBit (letter : UInt8) : Option UInt8 :=
  if letter == 114 then some fileRead
  else if letter == 119 then some fileWrite
  else if letter == 100 then some fileDelete
  else none

def netBit (letter : UInt8) : Option UInt8 :=
  if letter == 99 then some netConnect
  else if letter == 98 then some netBind
  else if letter == 115 then some netSend
  else none

/-- Allows one more syscall, or all of them. -/
def addSyscall (ln : Nat) (policy : Policy) (word : List UInt8) : Except ParseError Policy :=
  if word == ascii "*" then .ok { policy with allSyscalls := true }
  else
    match lookupSyscall word with
    | none => .error (.unknownSyscall ln)
    | some n => .ok { policy with syscalls := policy.syscalls ||| (1 <<< n) }

/-- Allows operations on one more pattern of files. -/
def addFile (ln : Nat) (perms : UInt8) (policy : Policy) (pat : List UInt8) :
    Except ParseError Policy :=
  if !validPattern pat then .error (.badPattern ln)
  else if policy.files.length ≥ maxFileRules then .error (.tooManyRules ln)
  else .ok { policy with files := policy.files ++ [{ pattern := pat, perms := perms }] }

/-- An address and a port, with the last colon between them. -/
def splitAddress (addr : List UInt8) : Option (List UInt8 × List UInt8) :=
  let port := (addr.reverse.takeWhile (· != 58)).reverse
  if port.length = addr.length then none
  else some (addr.take (addr.length - port.length - 1), port)

/-- Allows operations on one more set of peers. -/
def addNet (ln : Nat) (ops : UInt8) (policy : Policy) (addr : List UInt8) :
    Except ParseError Policy :=
  match splitAddress addr with
  | none => .error (.badAddress ln)
  | some (ipText, portText) => do
    let (anyIp, ip) ←
      if ipText == ascii "*" then .ok (true, 0)
      else
        match parseIp ipText with
        | some ip => .ok (false, ip)
        | none => .error (ParseError.badAddress ln)
    let (lo, hi) ←
      match parsePorts portText with
      | some ports => .ok ports
      | none => .error (ParseError.badAddress ln)
    if policy.nets.length ≥ maxNetRules then .error (.tooManyRules ln)
    else
      return { policy with
        nets := policy.nets ++
          [{ anyIp := anyIp, ip := ip, ops := ops, portLo := lo, portHi := hi }] }

/-- Allows one more pattern of programs to be started. -/
def addExec (ln : Nat) (policy : Policy) (pat : List UInt8) : Except ParseError Policy :=
  if !validPattern pat then .error (.badPattern ln)
  else if policy.execs.length ≥ maxExecRules then .error (.tooManyRules ln)
  else .ok { policy with execs := policy.execs ++ [pat] }

/-- A directive's words, of which there must be at least one. -/
def addAll (ln : Nat) (add : Policy → List UInt8 → Except ParseError Policy) (policy : Policy)
    (words : List (List UInt8)) : Except ParseError Policy :=
  if words.isEmpty then .error (.syntaxError ln) else words.foldlM add policy

/-- What stands after `allow`. -/
def parseAllow (ln : Nat) (policy : Policy) : List (List UInt8) → Except ParseError Policy
  | [] => .error (.syntaxError ln)
  | kind :: words =>
    if kind == ascii "syscall" then addAll ln (addSyscall ln) policy words
    else if kind == ascii "file" then
      match words with
      | [] => .error (.syntaxError ln)
      | letters :: words => do
        let perms ← parseBits ln fileBit letters
        addAll ln (addFile ln perms) policy words
    else if kind == ascii "net" then
      match words with
      | [] => .error (.syntaxError ln)
      | letters :: words => do
        let ops ← parseBits ln netBit letters
        addAll ln (addNet ln ops) policy words
    else if kind == ascii "exec" then addAll ln (addExec ln) policy words
    else .error (.syntaxError ln)

/-- One line of a profile; the mode may be given once. -/
def parseLine (ln : Nat) (raw : List UInt8) (policy : Policy) (seenMode : Bool) :
    Except ParseError (Policy × Bool) :=
  let line := stripReturn raw
  if line.length > maxLine then .error (.lineTooLong ln)
  else
    match tokens (stripComment line) with
    | [] => .ok (policy, seenMode)
    | word :: words =>
      if word == ascii "mode" then
        if seenMode then .error (.duplicateMode ln)
        else if words == [ascii "enforce"] then .ok ({ policy with complain := false }, true)
        else if words == [ascii "complain"] then .ok ({ policy with complain := true }, true)
        else .error (.syntaxError ln)
      else if word == ascii "allow" then do
        let policy ← parseAllow ln policy words
        return (policy, seenMode)
      else .error (.syntaxError ln)

/-- The lines of a profile from some line number on. -/
def parseLines : Nat → List (List UInt8) → Policy → Bool → Except ParseError Policy
  | _, [], policy, _ => .ok policy
  | ln, raw :: raws, policy, seenMode => do
    let (policy, seenMode) ← parseLine ln raw policy seenMode
    parseLines (ln + 1) raws policy seenMode

/-- Reads a whole profile; anything not fully understood is an error. -/
def parse (text : List UInt8) : Except ParseError Policy :=
  if text.length > maxProfileText then .error .tooLarge
  else if text.any (!isTextByte ·) then .error .badByte
  else parseLines 1 (text.splitOn 10) {} false

end NovaOs.Confine
