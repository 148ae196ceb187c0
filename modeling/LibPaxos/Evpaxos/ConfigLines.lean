import LibPaxos.Evpaxos.Config

/-!
# Lines of a configuration

The parser of lines splits off a keyword and hands the rest to the parser for
this keyword.  The rest is a null pointer when no space follows the keyword, and
only some of the parsers look whether it is.  A replica whose line is not parsed
has no address string, and the parser copies it all the same.
-/

namespace LibPaxos

open LibPaxos.Library CString

/-! ### Arguments -/

/-- The address that is read from the arguments has room in its array. -/
def AddressFits (str : List Char) : Prop :=
  ∀ id afterId address afterAddress,
    scanInt str = some (id, afterId) →
    scanString afterId = some (address, afterAddress) →
    address.length < addressSize

/-- The arguments are there, and their address has room. -/
def ArgumentsFit (line : Option (List Char)) : Prop :=
  ∃ str, line = some str ∧ AddressFits str

/-- The arguments begin with an id, an address, a port, a group and a parent
group. -/
def ReplicaFields (line : Option (List Char)) (address : List Char)
    (port groupid parentid : Int) : Prop :=
  ∃ str id afterId afterAddress afterPort afterGroup afterParent,
    line = some str ∧
    scanInt str = some (id, afterId) ∧
    scanString afterId = some (address, afterAddress) ∧
    scanInt afterAddress = some (port, afterPort) ∧
    scanInt afterPort = some (groupid, afterGroup) ∧
    scanInt afterGroup = some (parentid, afterParent)

theorem scanAddress_isSome_iff (str : List Char) :
    (scanAddress str).isSome = true ↔ AddressFits str := by
  unfold scanAddress
  cases readId : scanInt str with
  | none =>
      apply iff_of_true rfl
      intro id afterId address afterAddress isId _
      rw [readId] at isId
      cases isId
  | some idRest =>
      obtain ⟨id, afterId⟩ := idRest
      cases readAddress : scanString afterId with
      | none =>
          apply iff_of_true (by simp only [readAddress, Option.isSome_some])
          intro other afterOther address afterAddress isId isAddress
          rw [readId] at isId
          cases isId
          rw [readAddress] at isAddress
          cases isAddress
      | some addressRest =>
          obtain ⟨address, afterAddress⟩ := addressRest
          simp only [readAddress]
          constructor
          · intro defined other afterOther another afterAnother isId isAddress
            rw [readId] at isId
            cases isId
            rw [readAddress] at isAddress
            cases isAddress
            by_contra long
            rw [if_neg long] at defined
            cases defined
          · intro fits
            rw [if_pos (fits id afterId address afterAddress readId
              readAddress)]
            rfl

theorem parseAddress_isSome_iff (line : Option (List Char)) :
    (parseAddress line).isSome = true ↔ ArgumentsFit line := by
  unfold parseAddress ArgumentsFit
  cases line with
  | none => simp
  | some str => simp [scanAddress_isSome_iff]

theorem parseAddressReplica_isSome_iff (line : Option (List Char)) :
    (parseAddressReplica line).isSome = true ↔ ArgumentsFit line := by
  unfold parseAddressReplica ArgumentsFit
  cases line with
  | none => simp
  | some str => simp [scanAddress_isSome_iff]

/-- A parsed replica has the five fields of its line. -/
theorem parseAddressReplica_eq_some {line : Option (List Char)}
    {parsed : ConfigAddress}
    (isParsed : parseAddressReplica line = some (some parsed)) :
    ∃ address port groupid parentid,
      ReplicaFields line address port groupid parentid ∧
        parsed = ⟨some address, port, groupid, parentid⟩ := by
  obtain ⟨str, present, scanned⟩ := Option.bind_eq_some_iff.mp isParsed
  obtain ⟨found, isFound, fields⟩ := Option.map_eq_some_iff.mp scanned
  obtain ⟨⟨address, port, afterPort⟩, rfl, groups⟩ :=
    Option.bind_eq_some_iff.mp fields
  obtain ⟨⟨groupid, afterGroup⟩, readGroup, parents⟩ :=
    Option.bind_eq_some_iff.mp groups
  obtain ⟨⟨parentid, afterParent⟩, readParent, same⟩ :=
    Option.map_eq_some_iff.mp parents
  refine ⟨address, port, groupid, parentid, ?_, same.symm⟩
  unfold scanAddress at isFound
  split at isFound
  · cases isFound
  · next id afterId readId =>
      split at isFound
      · cases isFound
      · next readText afterAddress readAddress =>
          split at isFound
          · obtain ⟨⟨readPort, rest⟩, isPort, isPair⟩ :=
              Option.map_eq_some_iff.mp (Option.some.inj isFound)
            cases isPair
            exact ⟨str, id, afterId, afterAddress, afterPort, afterGroup,
              afterParent, present, readId, readAddress, isPort, readGroup,
              readParent⟩
          · cases isFound

/-- The arguments of a replica line with its five fields are parsed. -/
theorem parseAddressReplica_of_fields {line : Option (List Char)}
    (fit : ArgumentsFit line) {address : List Char}
    {port groupid parentid : Int}
    (fields : ReplicaFields line address port groupid parentid) :
    parseAddressReplica line =
      some (some ⟨some address, port, groupid, parentid⟩) := by
  obtain ⟨str, id, afterId, afterAddress, afterPort, afterGroup, afterParent,
    rfl, readId, readAddress, readPort, readGroup, readParent⟩ := fields
  obtain ⟨other, same, fits⟩ := fit
  cases same
  have room := fits id afterId address afterAddress readId readAddress
  simp only [parseAddressReplica, scanAddress, Option.bind_some, readId,
    readAddress, if_pos room, readPort, Option.map_some, readGroup, readParent,
    addressInit]

/-! ### Lines -/

/-- The keyword of a line and its arguments. -/
def lineParts (line : List Char) : List Char × Option (List Char) :=
  strsep ' ' (strtrim line)

/-- The slot that a replica line fills in has an address string. -/
def SlotFilled (c : ConfigState) : Prop :=
  (c.proposers c.proposersCount).addr ≠ none

/-- What a line needs so that the parser follows no null pointer and stays in
its arrays: arguments, and for a replica all five of them unless the slot has an
address string already. -/
def SafeLine (c : ConfigState) (line : List Char) : Prop :=
  if isKeyword "a" "acceptor" (lineParts line).1 then
    maxNOfProposers ≤ c.acceptorsCount ∨ ArgumentsFit (lineParts line).2
  else if isKeyword "p" "proposer" (lineParts line).1 then
    maxNOfProposers ≤ c.proposersCount ∨ ArgumentsFit (lineParts line).2
  else if isKeyword "r" "replica" (lineParts line).1 then
    (maxNOfProposers ≤ c.proposersCount ∨
      maxNOfProposers ≤ c.acceptorsCount) ∨
    (ArgumentsFit (lineParts line).2 ∧
      ((∃ address port groupid parentid,
        ReplicaFields (lineParts line).2 address port groupid parentid) ∨
        SlotFilled c))
  else
    (lineParts line).2 ≠ none

def IsReplicaLine (line : List Char) : Prop :=
  isKeyword "a" "acceptor" (lineParts line).1 = false ∧
    isKeyword "p" "proposer" (lineParts line).1 = false ∧
    isKeyword "r" "replica" (lineParts line).1 = true

/-- One proposer and one acceptor have been appended, with the same address,
port and groups. -/
def AppendsReplica (c after : ConfigState) : Prop :=
  ∃ address port groupid parentid,
    after = { c with
      proposersCount := c.proposersCount + 1
      acceptorsCount := c.acceptorsCount + 1
      proposers := Function.update c.proposers c.proposersCount
        ⟨some address, port, groupid, parentid⟩
      acceptors := Function.update c.acceptors c.acceptorsCount
        ⟨some address, port, groupid, parentid⟩ }

/-- The parser returns, and has appended a replica when it accepts a line for
one. -/
def ParsesLine (c : ConfigState) (line : List Char) : Prop :=
  ∃ rv after, parseLine c line = some (rv, after) ∧
    (rv = true → IsReplicaLine line → AppendsReplica c after)

/-- A replica that is appended is appended to the acceptors with its groups. -/
theorem AppendsReplica.evpaxosConfig {c after : ConfigState}
    (appends : AppendsReplica c after) :
    ∃ groupid parentid, after.evpaxosConfig.acceptors =
      c.evpaxosConfig.acceptors ++ [⟨groupid, parentid⟩] := by
  obtain ⟨address, port, groupid, parentid, rfl⟩ := appends
  refine ⟨groupid, parentid, ?_⟩
  simp only [ConfigState.evpaxosConfig, List.range_succ, List.map_append,
    List.map_cons, List.map_nil, Function.update_self]
  congr 1
  apply List.map_congr_left
  intro i member
  have bound := List.mem_range.mp member
  rw [Function.update_of_ne (Nat.ne_of_lt bound)]

theorem parseReplicaLine_isSome_iff (c : ConfigState)
    (line : Option (List Char)) :
    (parseReplicaLine c line).isSome = true ↔
      (maxNOfProposers ≤ c.proposersCount ∨
        maxNOfProposers ≤ c.acceptorsCount) ∨
      (ArgumentsFit line ∧
        ((∃ address port groupid parentid,
          ReplicaFields line address port groupid parentid) ∨
          SlotFilled c)) := by
  unfold parseReplicaLine
  by_cases full : maxNOfProposers ≤ c.proposersCount ∨
      maxNOfProposers ≤ c.acceptorsCount
  · rw [if_pos full]
    exact iff_of_true rfl (Or.inl full)
  · rw [if_neg full, or_iff_right full]
    rw [← parseAddressReplica_isSome_iff]
    cases parsed : parseAddressReplica line with
    | none => simp
    | some address =>
        have fit : ArgumentsFit line := by
          apply (parseAddressReplica_isSome_iff line).mp
          rw [parsed]
          rfl
        cases address with
        | none =>
            -- Nothing has been parsed, and the slot is copied as it is.
            have unparsed : ¬ ∃ address port groupid parentid,
                ReplicaFields line address port groupid parentid := by
              rintro ⟨address, port, groupid, parentid, fields⟩
              have found := parseAddressReplica_of_fields fit fields
              rw [parsed] at found
              cases found
            rw [or_iff_right unparsed]
            simp only [Option.bind_some, writeSlot, addressCopy, SlotFilled,
              Option.isSome_map, Option.isSome_some, true_and]
            exact Option.isSome_iff_ne_none
        | some found =>
            obtain ⟨address, port, groupid, parentid, fields, rfl⟩ :=
              parseAddressReplica_eq_some parsed
            refine iff_of_true ?_ ⟨rfl, Or.inl
              ⟨address, port, groupid, parentid, fields⟩⟩
            simp only [Option.bind_some, writeSlot, Function.update_self,
              addressCopy, Option.map_some, Option.isSome_some]

/-- A replica line that is accepted appends a replica. -/
theorem parseReplicaLine_appends {c after : ConfigState}
    {line : Option (List Char)}
    (accepted : parseReplicaLine c line = some (true, after)) :
    AppendsReplica c after := by
  unfold parseReplicaLine at accepted
  split at accepted
  · cases accepted
  · obtain ⟨parsed, isParsed, copied⟩ := Option.bind_eq_some_iff.mp accepted
    obtain ⟨copy, isCopy, same⟩ := Option.map_eq_some_iff.mp copied
    cases parsed with
    | none => cases same
    | some found =>
        obtain ⟨address, port, groupid, parentid, _, rfl⟩ :=
          parseAddressReplica_eq_some isParsed
        simp only [writeSlot, Function.update_self, addressCopy,
          Option.map_some, Option.some.injEq, addressInit] at isCopy
        refine ⟨address, port, groupid, parentid, ?_⟩
        rw [Prod.mk.injEq] at same
        rw [← same.2, ← isCopy]
        rfl

theorem parseLine_eq (c : ConfigState) (line : List Char) :
    parseLine c line =
      if isKeyword "a" "acceptor" (lineParts line).1 then
        parseAcceptorLine c (lineParts line).2
      else if isKeyword "p" "proposer" (lineParts line).1 then
        parseProposerLine c (lineParts line).2
      else if isKeyword "r" "replica" (lineParts line).1 then
        parseReplicaLine c (lineParts line).2
      else
        parseOptionLine c (lineParts line).1 (lineParts line).2 :=
  rfl

/-- The parser returns exactly on the lines that are safe. -/
theorem parseLine_isSome_iff (c : ConfigState) (line : List Char) :
    (parseLine c line).isSome = true ↔ SafeLine c line := by
  rw [parseLine_eq, SafeLine]
  split
  · unfold parseAcceptorLine
    split
    · next full => exact iff_of_true rfl (Or.inl full)
    · next room =>
        rw [or_iff_right room, Option.isSome_map, parseAddress_isSome_iff]
  · split
    · unfold parseProposerLine
      split
      · next full => exact iff_of_true rfl (Or.inl full)
      · next room =>
          rw [or_iff_right room, Option.isSome_map, parseAddress_isSome_iff]
    · split
      · exact parseReplicaLine_isSome_iff c (lineParts line).2
      · rw [parseOptionLine, Option.isSome_map]
        exact Option.isSome_iff_ne_none

/-- The parser returns 0 or 1, and appends what it should, exactly when the line
is safe in the configuration that has been read so far. -/
theorem line_parsed_iff (c : ConfigState) (line : List Char) :
    ParsesLine c line ↔ SafeLine c line := by
  rw [← parseLine_isSome_iff]
  constructor
  · rintro ⟨rv, after, parsed, _⟩
    rw [parsed]
    rfl
  · intro defined
    obtain ⟨⟨rv, after⟩, parsed⟩ := Option.isSome_iff_exists.mp defined
    refine ⟨rv, after, parsed, ?_⟩
    rintro accepted ⟨notAcceptor, notProposer, isReplica⟩
    rw [accepted, parseLine_eq, notAcceptor, notProposer, isReplica] at parsed
    exact parseReplicaLine_appends parsed

/-- The first replica of `paxos.conf` is appended to the empty configuration. -/
theorem line_parsed_of_first_replica :
    ParsesLine ConfigState.initial "replica 0 127.0.0.1 8800 0 0\n".toList := by
  apply (line_parsed_iff _ _).mpr
  rw [← parseLine_isSome_iff]
  decide +kernel

/-- A blank line has no keyword and no arguments, and the parser follows the
null pointer of its arguments. -/
theorem line_unparsed_when_blank :
    ¬ ParsesLine ConfigState.initial "   \n".toList := by
  rintro ⟨rv, after, parsed, _⟩
  have fails : (parseLine ConfigState.initial "   \n".toList).isNone = true := by
    decide
  rw [parsed] at fails
  cases fails

end LibPaxos
