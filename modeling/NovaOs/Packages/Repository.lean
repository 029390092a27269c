import NovaOs.Config.Text
import NovaOs.Fat32.Model
import NovaOs.Packages.Signing

/-!
The package server (`kernel/rust/pkgrepo.rs`): parsing of requests, names of packages, verification
of the bytes read, and the handler of one client.
-/

namespace NovaOs.Pkg

open Slice

def maxHeaderSize : Nat := 512

/-- The size of the buffer a package is read into. -/
def maxPackageSize : Nat := 65536

def pkgHeaderSize : Nat := 128

def pkgSignatureOffset : Nat := 96

/-- The running server's counters. -/
structure PkgRepoServer where
  active : Bool
  listenSock : Int
  port : UInt16
  requestsTotal : UInt32
  packagesServed : UInt32
  bytesServed : UInt32
  deriving DecidableEq, Repr

inductive HttpMethod where
  | get
  | head
  | other
  deriving DecidableEq, Repr

/-- Splits a request line at its first two blanks. -/
def parseHttpRequest (req : Bytes) : Option (HttpMethod × Bytes) :=
  let line := req.takeWhile fun b => !(b == 13 || b == 10)
  if line.isEmpty then none
  else
    let method := line.takeWhile (· != 32)
    match line.drop method.length with
    | [] => none
    | _ :: tail =>
      let path := tail.takeWhile (· != 32)
      if path.length = tail.length then none
      else if method = ascii "GET" then some (.get, path)
      else if method = ascii "HEAD" then some (.head, path)
      else some (.other, path)

/-- A path without the directory the packages are published under. -/
def stripDirectory (path : Bytes) : Bytes :=
  let p :=
    if (ascii "/packages/").isPrefixOf path then path.drop 10
    else if (ascii "/packages").isPrefixOf path then path.drop 9
    else path
  if (ascii "/").isPrefixOf p then p.drop 1 else p

/-- The characters a base name ends before: `?`, `#` and the dot. -/
def endsBase (b : UInt8) : Bool := b == 63 || b == 35 || b == 46

/-- An 8.3 file name with the extension of packages, as the bytes of a C string with its end. -/
def extractPackageFilename (path : Bytes) : Option Bytes :=
  let p := stripDirectory path
  if p.isEmpty || 12 < p.length then none
  else
    let base := p.takeWhile fun b => !endsBase b
    if base.isEmpty || 8 < base.length then none
    else
      let name := base.map Fat.upperCase ++ ascii ".PKG" ++ [0]
      let ext := p.drop base.length
      if ext.head? = some 46 then
        if ext.length = 4 ∧ (ext.getD 1 0 = 112 ∨ ext.getD 1 0 = 80)
            ∧ (ext.getD 2 0 = 107 ∨ ext.getD 2 0 = 75) ∧
              (ext.getD 3 0 = 103 ∨ ext.getD 3 0 = 71) then
          some name
        else none
      else some name

/-- A buffer's bytes up to the first zero, as C reads them. -/
def extractCstr (bytes : Bytes) : Bytes := bytes.takeWhile (· != 0)

/-- Decimal digits, at most `turns` of them. -/
def decimal : Nat → Nat → Bytes
  | 0, _ => []
  | turns + 1, val =>
    if val = 0 then [] else decimal turns (val / 10) ++ [48 + UInt8.ofNat (val % 10)]

def formatUint (val room : Nat) : Bytes :=
  (if val = 0 then [48] else decimal 16 val).take room

def buildHttp200Headers (contentType : Bytes) (contentLen : Nat) : Bytes :=
  (ascii "HTTP/1.1 200 OK\r\nContent-Type: " ++ contentType ++ ascii "\r\nContent-Length: "
    ++ formatUint contentLen 16 ++ ascii "\r\nConnection: close\r\n\r\n").take maxHeaderSize

def buildHttp404 : Bytes :=
  (ascii "HTTP/1.1 404 Not Found\r\nContent-Type: text/plain\r\nContent-Length: 14\r\n"
    ++ ascii "Connection: close\r\n\r\n" ++ ascii "404 Not Found\n").take 256

def buildHttp400 : Bytes :=
  (ascii "HTTP/1.1 400 Bad Request\r\nContent-Type: text/plain\r\nContent-Length: 16\r\n"
    ++ ascii "Connection: close\r\n\r\n" ++ ascii "400 Bad Request\n").take 256

def buildHttp403SignatureInvalid : Bytes :=
  (ascii "HTTP/1.1 403 Forbidden\r\nContent-Type: text/plain\r\nContent-Length: 22\r\n"
    ++ ascii "Connection: close\r\n\r\n" ++ ascii "403 Signature Invalid\n").take 256

def buildHttp405 : Bytes :=
  (ascii "HTTP/1.1 405 Method Not Allowed\r\nAllow: GET, HEAD\r\nContent-Type: text/plain\r\n"
    ++ ascii "Content-Length: 23\r\nConnection: close\r\n\r\n"
    ++ ascii "405 Method Not Allowed\n").take 256

/-- One verification: the bytes it was given, how far from their start it read, and its verdict. -/
structure Check where
  contents : Bytes
  reach : Nat
  accepted : Bool
  deriving DecidableEq, Repr

/-- The memory at a buffer: the bytes read from disk, and whatever lies after them. -/
def bufferMemory (beyond : Memory) (bytes : Bytes) : Memory :=
  fun i => if i < bytes.length then bytes.getD i 0 else beyond i

/-- The payload size that a header declares. -/
def declaredSize (bytes : Bytes) : UInt32 := getU32Le bytes 92

def verifyPkgBytes (beyond : Memory) (pkgBytes : Bytes) : Except Panic Check :=
  if pkgBytes.length < pkgHeaderSize then
    return { contents := pkgBytes, reach := 0, accepted := false }
  else if pkgBytes.take 4 ≠ ascii "NVPK" then
    return { contents := pkgBytes, reach := 4, accepted := false }
  else
    let payloadSize := declaredSize pkgBytes
    -- The sum is taken in the 32 bits of a `usize`, without a check for overflow.
    if pkgBytes.length < (UInt32.ofNat pkgHeaderSize + payloadSize).toNat then
      return { contents := pkgBytes, reach := 96, accepted := false }
    else do
      let accepted ← rustPkgVerifySignature (bufferMemory beyond pkgBytes) 0
        (UInt32.ofNat pkgHeaderSize) (UInt32.ofNat pkgSignatureOffset) pkgHeaderSize payloadSize
      return { contents := pkgBytes, reach := pkgHeaderSize + payloadSize.toNat, accepted }

/-- What a request is answered from: the files by name, and the memory after each of the buffers
they are read into. -/
structure Env where
  disk : Bytes → Option Bytes
  beyondFileBuf : Memory
  beyondStackBuf : Memory

/-- At most `room` bytes of the file a C string names. -/
def Env.vfsReadFile (env : Env) (filename : Bytes) (room : Nat) : Option Bytes :=
  (env.disk (extractCstr filename)).map (·.take room)

/-- The answer to a client. -/
inductive Reply where
  /-- The connection is closed without one. -/
  | closed
  /-- A short response that is not about any file's contents. -/
  | plain (response : Bytes)
  /-- A text that the server has made up. -/
  | text (headers body : Bytes)
  /-- A package: the body is sent from the buffer the file was read into. -/
  | package (headers body : Bytes)
  deriving DecidableEq, Repr

/-- An answer, with the names of the files that were read for it and the verifications made. -/
structure Outcome where
  reply : Reply
  opened : List Bytes
  checks : List Check
  deriving DecidableEq, Repr

def knownPackages : List Bytes := [ascii "EDITOR.PKG" ++ [0], ascii "GAME.PKG" ++ [0]]

/-- The index's lines about one package. -/
def stanza (bytes name : Bytes) : Bytes :=
  ascii "Package: " ++ extractCstr ((bytes.drop 4).take 16)
    ++ ascii "\nVersion: " ++ extractCstr ((bytes.drop 20).take 8)
    ++ ascii "\nSize: " ++ formatUint (declaredSize bytes).toNat 16
    ++ ascii "\nDescription: " ++ extractCstr ((bytes.drop 28).take 64)
    ++ ascii "\nFilename: " ++ extractCstr name ++ ascii "\n\n"

/-- Adds one known package to the index, if it can be read and its signature is right. -/
def indexPackage (env : Env) (body : Bytes × List Bytes × List Check) (name : Bytes) :
    Except Panic (Bytes × List Bytes × List Check) :=
  let (text, opened, checks) := body
  match env.vfsReadFile name 1024 with
  | none => return (text, opened, checks)
  | some bytes =>
    if bytes.length < pkgHeaderSize then return (text, opened ++ [extractCstr name], checks)
    else do
      let check ← verifyPkgBytes env.beyondStackBuf bytes
      return (if check.accepted then text ++ stanza bytes name else text,
        opened ++ [extractCstr name], checks ++ [check])

def generateManifestIndex (env : Env) : Except Panic (Bytes × List Bytes × List Check) := do
  let heading := ascii "# NovaOS Package Repository Index\n"
    ++ ascii "# Format: RFC 822 Package Stanzas\n\n"
  let (text, opened, checks) ← knownPackages.foldlM (indexPackage env) (heading, [], [])
  return (text.take 2048, opened, checks)

def generateStatusText (server : PkgRepoServer) : Bytes :=
  (ascii "NovaOS Package Repository Server v1.0 (Rust)\n" ++ ascii "Status: "
    ++ (if server.active then ascii "running\nPort: " ++ formatUint server.port.toNat 8
      else ascii "stopped")
    ++ ascii "\nRequests Total: " ++ formatUint server.requestsTotal.toNat 16
    ++ ascii "\nPackages Served: " ++ formatUint server.packagesServed.toNat 16
    ++ ascii "\nBytes Served: " ++ formatUint server.bytesServed.toNat 16 ++ ascii "\n").take 512

/-- A package named by the path: read, verified and sent. -/
def servePackage (env : Env) (server : PkgRepoServer) (isHead : Bool) (filename : Bytes) :
    Except Panic (PkgRepoServer × Outcome) :=
  match env.vfsReadFile filename maxPackageSize with
  | none => return (server, { reply := .plain buildHttp404, opened := [], checks := [] })
  | some bytes =>
    let opened := [extractCstr filename]
    if bytes.length < pkgHeaderSize then
      return (server, { reply := .plain buildHttp404, opened, checks := [] })
    else do
      let check ← verifyPkgBytes env.beyondFileBuf bytes
      if check.accepted then
        let headers := buildHttp200Headers (ascii "application/octet-stream") bytes.length
        return ({ server with
            packagesServed := server.packagesServed + 1
            bytesServed := server.bytesServed + UInt32.ofNat bytes.length },
          { reply := .package headers (if isHead then [] else bytes), opened, checks := [check] })
      else
        return (server, { reply := .plain buildHttp403SignatureInvalid, opened, checks := [check] })

/-- A request that was parsed, by its path. -/
def dispatch (env : Env) (server : PkgRepoServer) (isHead : Bool) (path : Bytes) :
    Except Panic (PkgRepoServer × Outcome) :=
  if path = ascii "/status" ∨ path = ascii "/health" then
    let body := generateStatusText server
    let headers := buildHttp200Headers (ascii "text/plain") body.length
    return (server, {
      reply := .text headers (if isHead then [] else body)
      opened := [], checks := [] })
  else if path = ascii "/packages" ∨ path = ascii "/packages/" ∨ path = ascii "/packages/index"
      ∨ path = ascii "/index" then do
    let (body, opened, checks) ← generateManifestIndex env
    let headers := buildHttp200Headers (ascii "text/plain") body.length
    return (server, {
      reply := .text headers (if isHead then [] else body)
      opened, checks })
  else
    match extractPackageFilename path with
    | some filename => servePackage env server isHead filename
    | none => return (server, { reply := .plain buildHttp404, opened := [], checks := [] })

/-- One client, from the bytes its socket delivered. -/
def handleClient (env : Env) (server : PkgRepoServer) (received : Bytes) :
    Except Panic (PkgRepoServer × Outcome) :=
  if received.isEmpty then return (server, { reply := .closed, opened := [], checks := [] })
  else
    match parseHttpRequest received with
    | none => return (server, { reply := .plain buildHttp400, opened := [], checks := [] })
    | some (method, path) =>
      let server := { server with requestsTotal := server.requestsTotal + 1 }
      if method = .other then
        return (server, { reply := .plain buildHttp405, opened := [], checks := [] })
      else dispatch env server (method = .head) path

end NovaOs.Pkg
