import Mathlib.Data.List.DropRight
import Mathlib.Logic.Function.Basic
import LibPaxos.Library.CString
import LibPaxos.Evpaxos.Peers
import LibPaxos.Types

/-!
# Reading a configuration

The parser of configuration lines.  A line names an acceptor, a proposer, a
replica or an option.  A pointer to a string is `none` when it is null, and a
function is `none` when it follows a null pointer or writes past an array.
-/

namespace LibPaxos

open LibPaxos.Library

inductive PaxosLogLevel where
  | quiet
  | error
  | info
  | debug
  deriving DecidableEq, Repr

inductive PaxosStorageBackend where
  | memStorage
  | lmdbStorage
  deriving DecidableEq, Repr

/-- `struct paxos_config`, with the values that `paxos.c` gives its fields. -/
structure PaxosConfig where
  verbosity : PaxosLogLevel := .info
  tcpNodelay : Int := 1
  learnerCatchUp : Int := 1
  proposerTimeout : Int := 1
  proposerPreexecWindow : Int := 32
  storageBackend : PaxosStorageBackend := .memStorage
  trashFiles : Int := 0
  lmdbSync : Int := 0
  lmdbEnvPath : List Char := "/tmp/acceptor".toList
  lmdbMapsize : Nat := 1024 * 1024

/-- `struct address`. -/
structure ConfigAddress where
  addr : Option (List Char)
  port : Int
  groupid : Int
  parentid : Int
  deriving DecidableEq

def ConfigAddress.zeroed : ConfigAddress :=
  ⟨none, 0, 0, 0⟩

/-- What the parser changes: `struct evpaxos_config` and the global
`paxos_config`. -/
structure ConfigState where
  proposersCount : Nat
  acceptorsCount : Nat
  proposers : Nat → ConfigAddress
  acceptors : Nat → ConfigAddress
  paxosConfig : PaxosConfig

/-- `strtrim`, from the string that it is given on. -/
def strtrim (string : List Char) : List Char :=
  (string.dropWhile CString.isspace).rdropWhile CString.isspace

/-! ### The values of options -/

/-- A keyword and what it stands for, in any case of letters. -/
def parseKeyword {α : Type} (keywords : List (String × α))
    (str : List Char) : Option α :=
  (keywords.find? fun keyword =>
    CString.sameIgnoringCase str keyword.1.toList).map Prod.snd

def parseBoolean (str : Option (List Char)) : Option Int :=
  str.bind (parseKeyword [("yes", 1), ("no", 0)])

def parseVerbosity (str : List Char) : Option PaxosLogLevel :=
  parseKeyword [("quiet", .quiet), ("error", .error), ("info", .info),
    ("debug", .debug)] str

def parseBackend (str : List Char) : Option PaxosStorageBackend :=
  parseKeyword [("memory", .memStorage), ("lmdb", .lmdbStorage)] str

def parseInteger (str : Option (List Char)) : Option Int :=
  str.bind fun str =>
    let (n, rest) := CString.strtol str
    if rest = str then none else some (CString.intOfLong n)

def parseString (str : Option (List Char)) : Option (List Char) :=
  str.bind fun str =>
    if str.head? = none ∨ str.head? = some '\n' then none else some str

/-- `parse_bytes`: what it returns and what it has stored.  It stores the number
before it looks for errors and for a unit. -/
def parseBytes (str : List Char) : Bool × Nat :=
  let converted := CString.strtoull str
  if converted.range then
    (false, converted.value)
  else
    let rest := converted.rest.dropWhile CString.isspace
    if rest ≠ [] then
      if CString.sameIgnoringCase rest "kb".toList then
        (true, converted.value * 1024 % 2 ^ 64)
      else if CString.sameIgnoringCase rest "mb".toList then
        (true, converted.value * (1024 * 1024) % 2 ^ 64)
      else if CString.sameIgnoringCase rest "gb".toList then
        (true, converted.value * (1024 * 1024 * 1024) % 2 ^ 64)
      else
        (false, converted.value)
    else
      (true, converted.value)

/-! ### Options -/

/-- `struct option`: its type, and the field behind its `value` pointer. -/
inductive ConfigOption where
  | boolean (store : Int → PaxosConfig → PaxosConfig)
  | integer (store : Int → PaxosConfig → PaxosConfig)
  | string (store : List Char → PaxosConfig → PaxosConfig)
  | verbosity (store : PaxosLogLevel → PaxosConfig → PaxosConfig)
  | backend (store : PaxosStorageBackend → PaxosConfig → PaxosConfig)
  | bytes (store : Nat → PaxosConfig → PaxosConfig)

def configOptions : List (String × ConfigOption) :=
  [("verbosity", .verbosity fun value config =>
      { config with verbosity := value }),
    ("tcp-nodelay", .boolean fun value config =>
      { config with tcpNodelay := value }),
    ("learner-catch-up", .boolean fun value config =>
      { config with learnerCatchUp := value }),
    ("proposer-timeout", .integer fun value config =>
      { config with proposerTimeout := value }),
    ("proposer-preexec-window", .integer fun value config =>
      { config with proposerPreexecWindow := value }),
    ("storage-backend", .backend fun value config =>
      { config with storageBackend := value }),
    ("acceptor-trash-files", .boolean fun value config =>
      { config with trashFiles := value }),
    ("lmdb-sync", .boolean fun value config =>
      { config with lmdbSync := value }),
    ("lmdb-env-path", .string fun value config =>
      { config with lmdbEnvPath := value }),
    ("lmdb-mapsize", .bytes fun value config =>
      { config with lmdbMapsize := value })]

def lookupOption (opt : List Char) : Option ConfigOption :=
  (configOptions.find? fun option =>
    CString.sameIgnoringCase option.1.toList opt).map Prod.snd

/-- A value that a parser has found is stored, and the line is accepted. -/
def storeParsed {α : Type} (store : α → PaxosConfig → PaxosConfig)
    (config : PaxosConfig) : Option α → Bool × PaxosConfig
  | none => (false, config)
  | some value => (true, store value config)

/-- The `switch` of `parse_line` over the type of the option. -/
def parseOption (opt : ConfigOption) (line : List Char)
    (config : PaxosConfig) : Bool × PaxosConfig :=
  match opt with
  | .boolean store => storeParsed store config (parseBoolean (some line))
  | .integer store => storeParsed store config (parseInteger (some line))
  | .string store => storeParsed store config (parseString (some line))
  | .verbosity store => storeParsed store config (parseVerbosity line)
  | .backend store => storeParsed store config (parseBackend line)
  | .bytes store =>
      let (rv, bytes) := parseBytes line
      (rv, store bytes config)

/-! ### Addresses -/

def addressInit (addr : List Char) (port : Int) : ConfigAddress :=
  ⟨some addr, port, -1, -1⟩

/-- `address_copy`: the copy, when the source has an address string. -/
def addressCopy (src : ConfigAddress) : Option ConfigAddress :=
  src.addr.map fun addr =>
    { addressInit addr src.port with
      groupid := src.groupid
      parentid := src.parentid }

/-- The size of the array that `%s` writes the address to. -/
def addressSize : Nat :=
  128

/-- The conversions `%d %s %d` that both address parsers begin with: the
address, the port and the rest, if they all match. -/
def scanAddress (str : List Char) :
    Option (Option (List Char × Int × List Char)) :=
  match CString.scanInt str with
  | none => some none
  | some (_, str) =>
      match CString.scanString str with
      | none => some none
      | some (address, str) =>
          if address.length < addressSize then
            some ((CString.scanInt str).map fun (port, str) =>
              (address, port, str))
          else
            none

def parseAddress (str : Option (List Char)) :
    Option (Option ConfigAddress) :=
  str.bind fun str =>
    (scanAddress str).map fun scanned =>
      scanned.map fun (address, port, _) => addressInit address port

def parseAddressReplica (str : Option (List Char)) :
    Option (Option ConfigAddress) :=
  str.bind fun str =>
    (scanAddress str).map fun scanned =>
      scanned.bind fun (address, port, str) =>
        (CString.scanInt str).bind fun (groupid, str) =>
          (CString.scanInt str).map fun (parentid, _) =>
            { addressInit address port with
              groupid := groupid
              parentid := parentid }

/-! ### Lines -/

/-- The token is one of the two names of a kind of line. -/
def isKeyword (short long : String) (tok : List Char) : Bool :=
  CString.sameIgnoringCase tok short.toList ||
    CString.sameIgnoringCase tok long.toList

/-- A slot of an array after an address has been parsed into it, if it has. -/
def writeSlot (slots : Nat → ConfigAddress) (i : Nat) :
    Option ConfigAddress → Nat → ConfigAddress
  | none => slots
  | some address => Function.update slots i address

/-- The branch of `parse_line` for an acceptor. -/
def parseAcceptorLine (c : ConfigState) (line : Option (List Char)) :
    Option (Bool × ConfigState) :=
  if maxNOfProposers ≤ c.acceptorsCount then
    some (false, c)
  else
    (parseAddress line).map fun address =>
      (address.isSome,
        { c with
          acceptorsCount := c.acceptorsCount + 1
          acceptors := writeSlot c.acceptors c.acceptorsCount address })

/-- The branch of `parse_line` for a proposer. -/
def parseProposerLine (c : ConfigState) (line : Option (List Char)) :
    Option (Bool × ConfigState) :=
  if maxNOfProposers ≤ c.proposersCount then
    some (false, c)
  else
    (parseAddress line).map fun address =>
      (address.isSome,
        { c with
          proposersCount := c.proposersCount + 1
          proposers := writeSlot c.proposers c.proposersCount address })

/-- The branch of `parse_line` for a replica.  The slot of the proposer is
copied whether the line was parsed into it or not. -/
def parseReplicaLine (c : ConfigState) (line : Option (List Char)) :
    Option (Bool × ConfigState) :=
  if maxNOfProposers ≤ c.proposersCount ∨
      maxNOfProposers ≤ c.acceptorsCount then
    some (false, c)
  else
    (parseAddressReplica line).bind fun address =>
      let proposers := writeSlot c.proposers c.proposersCount address
      (addressCopy (proposers c.proposersCount)).map fun copy =>
        (address.isSome,
          { c with
            proposersCount := c.proposersCount + 1
            acceptorsCount := c.acceptorsCount + 1
            proposers := proposers
            acceptors := Function.update c.acceptors c.acceptorsCount copy })

/-- The branch of `parse_line` for an option. -/
def parseOptionLine (c : ConfigState) (tok : List Char)
    (line : Option (List Char)) : Option (Bool × ConfigState) :=
  line.map fun line =>
    match lookupOption tok with
    | none => (false, c)
    | some opt =>
        let (rv, config) := parseOption opt (strtrim line) c.paxosConfig
        (rv, { c with paxosConfig := config })

def parseLine (c : ConfigState) (line : List Char) :
    Option (Bool × ConfigState) :=
  let (tok, line) := CString.strsep ' ' (strtrim line)
  if isKeyword "a" "acceptor" tok then
    parseAcceptorLine c line
  else if isKeyword "p" "proposer" tok then
    parseProposerLine c line
  else if isKeyword "r" "replica" tok then
    parseReplicaLine c line
  else
    parseOptionLine c tok line

/-- The configuration that `evpaxos_config_read` starts from. -/
def ConfigState.initial : ConfigState :=
  ⟨0, 0, fun _ => ConfigAddress.zeroed, fun _ => ConfigAddress.zeroed, {}⟩

/-- The loop of `evpaxos_config_read` over the lines of the file: the
configuration, if every line is accepted. -/
def readLines : List (List Char) → ConfigState → Option (Option ConfigState)
  | [], c => some (some c)
  | line :: rest, c =>
      if line.head? = some '#' ∨ line.head? = some '\n' ∨
          line.head? = some '\r' then
        readLines rest c
      else
        (parseLine c line).bind fun (rv, c) =>
          if rv then readLines rest c else some none

/-- The groups of the acceptors that have been read. -/
def ConfigState.evpaxosConfig (c : ConfigState) : EvpaxosConfig :=
  ⟨(List.range c.acceptorsCount).map fun i =>
    ⟨(c.acceptors i).groupid, (c.acceptors i).parentid⟩⟩

/-- The lines of `paxos.conf` that are no comments. -/
def paxosConfLines : List String :=
  ["replica 0 127.0.0.1 8800 0 0\n", "replica 1 127.0.0.1 8801 0 0\n",
    "replica 2 127.0.0.1 8802 0 0\n", "replica 3 127.0.0.1 8803 0 0\n",
    "replica 4 127.0.0.1 8804 1 0\n", "replica 5 127.0.0.1 8805 1 0\n",
    "replica 6 127.0.0.1 8806 1 1\n", "replica 7 127.0.0.1 8807 2 0\n",
    "replica 8 127.0.0.1 8808 2 0\n", "replica 9 127.0.0.1 8809 2 2\n",
    "verbosity debug\n"]

example :
    ((readLines (paxosConfLines.map String.toList) ConfigState.initial).map
      fun read => read.map fun c => c.evpaxosConfig.acceptors) =
      some (some paxosConf.acceptors) := by
  decide +kernel

end LibPaxos
