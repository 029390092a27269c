import NovaOs.Config.Text

/-! What a confinement profile allows. -/

namespace NovaOs.Confine

def maxProfiles : Nat := 32
def maxStack : Nat := 4
def maxFileRules : Nat := 16
def maxNetRules : Nat := 8
def maxExecRules : Nat := 8
def nameLen : Nat := 16
def patLen : Nat := 24
def maxProfileText : Nat := 4096
def maxLine : Nat := 256
def auditLen : Nat := 16

-- Syscall numbers from here on are denied to a confined process outright.
def syscallLimit : Nat := 128

-- What a file rule may grant, as bits.
def fileRead : UInt8 := 1
def fileWrite : UInt8 := 2
def fileDelete : UInt8 := 4

-- What a network rule may grant, as bits.
def netConnect : UInt8 := 1
def netBind : UInt8 := 2
def netSend : UInt8 := 4

-- A confined process may always end itself and ask what confines it.
def sysExit : UInt32 := 2
def sysMacInfo : UInt32 := 71

/-- Profile names of the syscalls, by number; number zero is none. -/
def syscallNames : List String :=
  ["", "write", "exit", "yield", "open", "read", "close", "net_send", "spawn", "exec",
    "wait", "sbrk", "fork", "read_key", "list_files", "rtc_read", "lspci", "beep",
    "write_file", "delete_file", "gfx_enter", "gfx_exit", "gfx_put_pixel",
    "gfx_fill_rect", "mouse_read", "ping_start", "ping_poll", "pipe", "write_handle",
    "login", "getuid", "sudo", "shutdown", "socket", "bind", "listen", "accept",
    "connect", "exec_trusted", "dns_resolve", "tftp_fetch", "wait_nonblock",
    "exec_env", "exec_trusted_env", "socket_udp", "sendto", "recvfrom", "fb_info",
    "fb_acquire", "fb_release", "fb_create", "fb_destroy", "fb_present",
    "fb_readback", "shm_create", "shm_grant", "shm_map", "shm_unmap", "shm_destroy",
    "shm_info", "msg_open", "msg_close", "msg_send", "msg_recv", "msg_service",
    "msg_ctl", "audio_open", "audio_write", "audio_ctl", "audio_close", "rlimit",
    "mac_info", "mac_ctl", "fw_info", "fw_ctl"]

/-- Files by pattern, and what may be done with them. -/
structure FileRule where
  pattern : List UInt8
  perms : UInt8
  deriving DecidableEq, Repr

/-- Network peers and ports, and what may be done with them. -/
structure NetRule where
  anyIp : Bool
  ip : UInt32
  ops : UInt8
  portLo : UInt16
  portHi : UInt16
  deriving DecidableEq, Repr

/-- Everything a profile says. -/
structure Policy where
  complain : Bool := false
  allSyscalls : Bool := false
  -- One bit for every syscall number below the limit.
  syscalls : BitVec syscallLimit := 0
  files : List FileRule := []
  nets : List NetRule := []
  execs : List (List UInt8) := []
  deriving DecidableEq, Repr

/-- Lower-case letters count as upper-case ones. -/
def foldCase (b : UInt8) : UInt8 :=
  if 97 ≤ b && b ≤ 122 then b - 32 else b

/-- The main loop of the pattern matcher, with the one place it may fall back to. -/
def globLoop (pat text : List UInt8) (p t : Nat) (star : Option Nat) (mark : Nat)
    (behind : mark ≤ t) : Bool :=
  if _inside : t < text.length then
    if isStar : pat[p]? = some 42 then
      -- A star matches nothing at first.
      globLoop pat text (p + 1) t (some p) t (Nat.le_refl t)
    else if _fits : p < pat.length ∧
        (pat[p]? = some 63 ∨ (pat[p]?).map foldCase = (text[t]?).map foldCase) then
      globLoop pat text (p + 1) (t + 1) star mark (Nat.le_succ_of_le behind)
    else
      match star with
      -- The last star takes one byte more, and the match goes on from there.
      | some at_ =>
        globLoop pat text (at_ + 1) (mark + 1) star (mark + 1) (Nat.le_refl _)
      | none => false
  else (pat.drop p).all (· == 42)
termination_by (text.length - mark) * (pat.length + 1) + (pat.length - p)
decreasing_by
  · -- The mark only moves on, and the pattern is one byte further.
    have _within : p < pat.length := (List.getElem?_eq_some_iff.mp isStar).1
    have := Nat.mul_le_mul_right (pat.length + 1) (Nat.sub_le_sub_left behind text.length)
    omega
  · have := _fits.1
    omega
  · -- The mark moves on by one, which outweighs starting the pattern over.
    have ahead : text.length - mark = (text.length - (mark + 1)) + 1 := by omega
    rw [ahead, Nat.succ_mul]
    omega

/-- Case-insensitive matching: a star is any run of bytes, a question mark any one. -/
def globMatch (pat text : List UInt8) : Bool :=
  globLoop pat text 0 0 none 0 (Nat.le_refl 0)

namespace Policy

def allowsSyscall (policy : Policy) (n : UInt32) : Bool :=
  if n == sysExit || n == sysMacInfo then true
  else if n.toNat ≥ syscallLimit then false
  else policy.allSyscalls || policy.syscalls.getLsbD n.toNat

/-- Every operation asked for is granted, by the rules for the name taken together. -/
def allowsFile (policy : Policy) (name : List UInt8) (op : UInt8) : Bool :=
  if op == 0 then false
  else
    let granted := (policy.files.filter fun rule => globMatch rule.pattern name).foldl
      (fun perms rule => perms ||| rule.perms) 0
    granted &&& op == op

def allowsNet (policy : Policy) (op : UInt8) (ip : UInt32) (port : UInt16) : Bool :=
  policy.nets.any fun rule =>
    rule.ops &&& op != 0 && (rule.anyIp || rule.ip == ip)
      && rule.portLo ≤ port && port ≤ rule.portHi

def allowsExec (policy : Policy) (name : List UInt8) : Bool :=
  policy.execs.any fun pattern => globMatch pattern name

end Policy

end NovaOs.Confine
