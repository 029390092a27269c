import NovaOs.Packages.Served
import NovaOs.Tcp.Model

/-!
What a connection takes of an answer: headers and body are handed to `rust_tcp_send`, and how many
bytes it took is not looked at.
-/

namespace NovaOs.Pkg

open Slice List Tcp

variable {e : Engine} {sock : Int} {body : Bytes}

/-- How many bytes a socket's send buffer has room for: none where nothing can be sent. -/
def room (e : Engine) (sock : Int) : Nat :=
  match slotOf sock with
  | none => 0
  | some idx =>
    let c := e.conns idx
    if !c.inUse || c.isListener || c.finNeeded then 0
    else if c.state = .established ∨ c.state = .closeWait then sendBufCap - c.sendBuf.len
    else 0

/-- The bytes of a body that are accepted for transmission. -/
def taken (e : Engine) (sock : Int) (body : Bytes) : Bytes :=
  body.take (e.rustTcpSend sock body).1.toNat

variable {env : Env} {server after : PkgRepoServer} {outcome : Outcome} {path received : Bytes}

/-- A socket that was just connected. -/
def connected : Engine := { conns := fun _ => { inUse := true, state := .established } }

end NovaOs.Pkg
