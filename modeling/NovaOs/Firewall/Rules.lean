import NovaOs.Config.Text

/-! The firewall's rules: what they match, and how a configuration is read. -/

namespace NovaOs.Fw

def maxRules : Nat := 32
def maxConfigText : Nat := 4096
def maxLine : Nat := 200

def protoIcmp : UInt8 := 1
def protoTcp : UInt8 := 6
def protoUdp : UInt8 := 17

/-- Which way a packet passes the filter. -/
inductive Dir where
  | inbound
  | outbound
  deriving DecidableEq, Repr

-- How a packet relates to the tracked flows, as bits a rule can ask for.
def stNew : UInt8 := 1
def stEstablished : UInt8 := 2
def stRelated : UInt8 := 4
def stInvalid : UInt8 := 8

/-- The part of a packet that could not be understood, if any. -/
inductive Bad where
  | none
  | malformed
  | unsupported
  | fragment
  deriving DecidableEq, Repr

/-- The packet an ICMP error message quotes. -/
structure Inner where
  proto : UInt8
  src : UInt32
  dst : UInt32
  sport : UInt16
  dport : UInt16
  deriving DecidableEq, Repr

/-- What the filter needs to know about one IP packet. -/
structure Pkt where
  dir : Dir
  proto : UInt8 := 0
  src : UInt32 := 0
  dst : UInt32 := 0
  sport : UInt16 := 0
  dport : UInt16 := 0
  flags : UInt8 := 0
  icmpType : UInt8 := 0
  icmpCode : UInt8 := 0
  id : UInt16 := 0
  -- Transport length, for the byte counters.
  len : UInt16 := 0
  bad : Bad := .none
  inner : Option Inner := none
  deriving DecidableEq, Repr

/-- One rule. No direction means any, protocol zero means any, no states means all. -/
structure Rule where
  dir : Option Dir := some .inbound
  proto : UInt8 := 0
  accept : Bool := false
  log : Bool := false
  srcIp : UInt32 := 0
  srcMask : UInt32 := 0
  dstIp : UInt32 := 0
  dstMask : UInt32 := 0
  spSet : Bool := false
  spLo : UInt16 := 0
  spHi : UInt16 := 0
  dpSet : Bool := false
  dpLo : UInt16 := 0
  dpHi : UInt16 := 0
  states : UInt8 := 0
  icmpSet : Bool := false
  icmpType : UInt8 := 0
  deriving DecidableEq, Repr

/-- Does a rule apply to a packet in a state? -/
def Rule.matchesPkt (rule : Rule) (p : Pkt) (state : UInt8) : Bool :=
  let hasPorts := p.proto == protoTcp || p.proto == protoUdp
  if rule.dir.any (· != p.dir) then false
  else if rule.proto != 0 && rule.proto != p.proto then false
  else if p.src &&& rule.srcMask != rule.srcIp || p.dst &&& rule.dstMask != rule.dstIp then false
  else if rule.spSet && (!hasPorts || p.sport < rule.spLo || p.sport > rule.spHi) then false
  else if rule.dpSet && (!hasPorts || p.dport < rule.dpLo || p.dport > rule.dpHi) then false
  else if rule.states != 0 && rule.states &&& state == 0 then false
  else if rule.icmpSet && (p.proto != protoIcmp || p.icmpType != rule.icmpType) then false
  else true

/-- Why a configuration was refused, and on which line. -/
inductive ParseError where
  | tooLarge
  | badByte
  | lineTooLong (line : Nat)
  | syntaxError (line : Nat)
  | badAddress (line : Nat)
  | badPort (line : Nat)
  | badState (line : Nat)
  | badCombination (line : Nat)
  | tooManyRules (line : Nat)
  deriving DecidableEq, Repr

/-- A network and its mask; the network is already masked. -/
def parseCidr (s : List UInt8) : Option (UInt32 × UInt32) :=
  if s == ascii "any" then some (0, 0)
  else do
    -- Without a slash the mask covers the whole address.
    let slash := s.findIdx (· == 47)
    let bits ← if slash = s.length then some 32 else parseU32Dec (s.drop (slash + 1)) 32
    let ip ← parseIp (s.take slash)
    let mask : UInt32 := if bits = 0 then 0 else 0xFFFFFFFF <<< UInt32.ofNat (32 - bits)
    return (ip &&& mask, mask)

/-- Any port, one port, or a range of ports. -/
def parsePorts (s : List UInt8) : Option (Bool × UInt16 × UInt16) :=
  if s == ascii "any" then some (false, 0, 0)
  else
    let dash := s.findIdx (· == 45)
    if dash = s.length then do
      let v ← parseU32Dec s 65535
      return (true, UInt16.ofNat v, UInt16.ofNat v)
    else do
      let lo ← parseU32Dec (s.take dash) 65535
      let hi ← parseU32Dec (s.drop (dash + 1)) 65535
      if lo ≤ hi then return (true, UInt16.ofNat lo, UInt16.ofNat hi) else none

/-- A list of states; an invalid packet is always dropped, so that state has no name. -/
def parseStates (s : List UInt8) : Option UInt8 := do
  let mask ← (s.splitOn 44).foldlM (fun mask part =>
    if part == ascii "new" then some (mask ||| stNew)
    else if part == ascii "established" then some (mask ||| stEstablished)
    else if part == ascii "related" then some (mask ||| stRelated)
    else none) (0 : UInt8)
  if mask = 0 then none else some mask

/-- Which words of a rule have been given already. -/
structure Seen where
  proto : Bool := false
  source : Bool := false
  target : Bool := false
  sport : Bool := false
  dport : Bool := false
  state : Bool := false
  icmp : Bool := false

/-- One word and its value. A word given twice is an error, as is an unknown one. -/
def parseOption (ln : Nat) (key val : List UInt8) (rule : Rule) (seen : Seen) :
    Except ParseError (Rule × Seen) :=
  if key == ascii "proto" && !seen.proto then
    let known (proto : UInt8) := .ok ({ rule with proto := proto }, { seen with proto := true })
    if val == ascii "tcp" then known protoTcp
    else if val == ascii "udp" then known protoUdp
    else if val == ascii "icmp" then known protoIcmp
    else if val == ascii "any" then known 0
    else .error (.syntaxError ln)
  else if key == ascii "from" && !seen.source then
    match parseCidr val with
    | none => .error (.badAddress ln)
    | some (ip, mask) =>
      .ok ({ rule with srcIp := ip, srcMask := mask }, { seen with source := true })
  else if key == ascii "to" && !seen.target then
    match parseCidr val with
    | none => .error (.badAddress ln)
    | some (ip, mask) =>
      .ok ({ rule with dstIp := ip, dstMask := mask }, { seen with target := true })
  else if key == ascii "sport" && !seen.sport then
    match parsePorts val with
    | none => .error (.badPort ln)
    | some (set, lo, hi) =>
      .ok ({ rule with spSet := set, spLo := lo, spHi := hi }, { seen with sport := true })
  else if key == ascii "dport" && !seen.dport then
    match parsePorts val with
    | none => .error (.badPort ln)
    | some (set, lo, hi) =>
      .ok ({ rule with dpSet := set, dpLo := lo, dpHi := hi }, { seen with dport := true })
  else if key == ascii "state" && !seen.state then
    match parseStates val with
    | none => .error (.badState ln)
    | some states => .ok ({ rule with states := states }, { seen with state := true })
  else if key == ascii "icmp-type" && !seen.icmp then
    match parseU32Dec val 255 with
    | none => .error (.syntaxError ln)
    | some kind =>
      .ok ({ rule with icmpSet := true, icmpType := UInt8.ofNat kind }, { seen with icmp := true })
  else .error (.syntaxError ln)

/-- The words after a rule's action and direction. -/
def parseOptions (ln : Nat) : List (List UInt8) → Rule → Seen → Except ParseError Rule
  | [], rule, _ => .ok rule
  | key :: words, rule, seen =>
    if key == ascii "log" then
      if rule.log then .error (.syntaxError ln)
      else parseOptions ln words { rule with log := true } seen
    else
      match words with
      | [] => .error (.syntaxError ln)
      | val :: words => do
        let (rule, seen) ← parseOption ln key val rule seen
        parseOptions ln words rule seen

/-- `rule <accept|drop> <in|out|any> ...`, with `rule` already consumed. -/
def parseRuleTokens (ln : Nat) (words : List (List UInt8)) : Except ParseError Rule :=
  match words with
  | action :: dir :: words => do
    let accept ←
      if action == ascii "accept" then .ok true
      else if action == ascii "drop" then .ok false
      else .error (ParseError.syntaxError ln)
    let dir ←
      if dir == ascii "in" then .ok (some Dir.inbound)
      else if dir == ascii "out" then .ok (some Dir.outbound)
      else if dir == ascii "any" then .ok none
      else .error (ParseError.syntaxError ln)
    let rule ← parseOptions ln words { accept := accept, dir := dir } {}
    -- A port means TCP or UDP, an ICMP type means ICMP.
    if (rule.spSet || rule.dpSet) && rule.proto != protoTcp && rule.proto != protoUdp then
      .error (.badCombination ln)
    else if rule.icmpSet && rule.proto != protoIcmp then .error (.badCombination ln)
    else .ok rule
  | _ => .error (.syntaxError ln)

/-- What a configuration says. -/
structure Config where
  rules : List Rule := []
  policyIn : Bool := false
  policyOut : Bool := true
  deriving DecidableEq, Repr

/-- A configuration under construction, with the policies given so far. -/
structure Reading where
  config : Config := {}
  seenIn : Bool := false
  seenOut : Bool := false

/-- One policy line, with `policy` already consumed. -/
def parsePolicy (ln : Nat) (words : List (List UInt8)) (reading : Reading) :
    Except ParseError Reading :=
  match words with
  | [dir, act] => do
    let accept ←
      if act == ascii "accept" then .ok true
      else if act == ascii "drop" then .ok false
      else .error (ParseError.syntaxError ln)
    if dir == ascii "in" && !reading.seenIn then
      return { reading with config := { reading.config with policyIn := accept }, seenIn := true }
    else if dir == ascii "out" && !reading.seenOut then
      return { reading with config := { reading.config with policyOut := accept }, seenOut := true }
    else .error (.syntaxError ln)
  | _ => .error (.syntaxError ln)

/-- One line of a configuration. -/
def parseLine (ln : Nat) (raw : List UInt8) (reading : Reading) : Except ParseError Reading :=
  let line := stripReturn raw
  if line.length > maxLine then .error (.lineTooLong ln)
  else
    match tokens (stripComment line) with
    | [] => .ok reading
    | word :: words =>
      if word == ascii "policy" then parsePolicy ln words reading
      else if word == ascii "rule" then
        if reading.config.rules.length ≥ maxRules then .error (.tooManyRules ln)
        else do
          let rule ← parseRuleTokens ln words
          return { reading with
            config := { reading.config with rules := reading.config.rules ++ [rule] } }
      else .error (.syntaxError ln)

/-- The lines of a configuration from some line number on. -/
def parseLines : Nat → List (List UInt8) → Reading → Except ParseError Config
  | _, [], reading => .ok reading.config
  | ln, raw :: raws, reading => do
    let reading ← parseLine ln raw reading
    parseLines (ln + 1) raws reading

/-- Reads a whole configuration; anything not fully understood is an error. -/
def parseConfig (text : List UInt8) : Except ParseError Config :=
  if text.length > maxConfigText then .error .tooLarge
  else if text.any (!isTextByte ·) then .error .badByte
  else parseLines 1 (text.splitOn 10) {}

/-- The built-in configuration: nothing gets in unless it was asked for. -/
def baseline : List UInt8 :=
  ascii "policy in drop\npolicy out accept\nrule accept in state established,related\n"

/-- The one rule of the built-in configuration. -/
def baselineRule : Rule where
  dir := some .inbound
  accept := true
  states := stEstablished ||| stRelated

/-- The built-in configuration reads as it was meant. -/
theorem parseConfig_baseline :
    parseConfig baseline
      = .ok { rules := [baselineRule], policyIn := false, policyOut := true } := by
  decide +kernel

end NovaOs.Fw
