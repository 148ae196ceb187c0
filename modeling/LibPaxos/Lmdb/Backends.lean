import LibPaxos.Acceptor.Model
import LibPaxos.Lmdb.Storage

/-!
# The two backends

Storage on disk and storage in memory take the same calls.  Over every sequence
of puts and trims they keep records for the same instances and know the same
trim instance, as long as every record that is put comes back whole from the
entry that storage on disk makes of it.
-/

namespace LibPaxos

open LibPaxos.Library

/-- A call that changes storage.  A put comes with the memory that it reads
besides the record, and with the length that storage on disk takes from a field
the record does not have. -/
inductive StorageOp where
  | put (mem : Memory) (found : FieldMemory) (valueLen : Nat)
      (acc : PaxosAccepted)
  | trim (iid : Nat)

/-- Instances are numbered from 1, and all fields are in the range of their
types. -/
def StorageOp.Valid : StorageOp → Prop
  | .put _ _ _ acc => 1 ≤ acc.iid ∧ acc.iid < 2 ^ 32 ∧ acc.InRange
  | .trim iid => 1 ≤ iid ∧ iid < 2 ^ 32

/-- A call to storage on disk.  The loop of a trim runs as long as there is
fuel. -/
def lmdbStep (m : Mdb) (fuel : Nat) (s : m.State) :
    StorageOp → Option m.State
  | .put _ found valueLen acc => lmdbStoragePut m found valueLen s acc
  | .trim iid => lmdbStorageTrim m fuel s iid

def memStep (s : MemStorage) : StorageOp → MemStorage
  | .put mem _ _ acc => memStoragePut mem s acc
  | .trim iid => memStorageTrim s iid

/-- The calls in order, to a new storage on disk. -/
def lmdbRun (m : Mdb) (fuel : Nat) (ops : List StorageOp) :
    Option m.State :=
  ops.foldlM (lmdbStep m fuel) m.empty

def memRun (ops : List StorageOp) : MemStorage :=
  ops.foldl memStep memStorageNew

/-- Every get has a result, the backends find records for the same instances,
and they have the same trim instance. -/
structure StoragesAgree (m : Mdb) (s : m.State) (t : MemStorage) : Prop where
  found_iff : ∀ mem iid, 1 ≤ iid →
    ∃ out, lmdbStorageGet m s iid = some out ∧
      (out.isSome ↔ (memStorageGet mem t iid).isSome)
  trim_eq : lmdbStorageGetTrimInstance m s = t.trimIid

/-- A trim removes the records up to an instance, leaves the others as they are,
and notes the instance. -/
structure TrimmedTo (m : Mdb) (iid : Nat) (before after : m.State) :
    Prop where
  removed : ∀ key, 1 ≤ key → key ≤ iid →
    lmdbStorageGet m after key = some none
  kept : ∀ key, iid < key →
    lmdbStorageGet m after key = lmdbStorageGet m before key
  noted : lmdbStorageGetTrimInstance m after = iid

/-- After every part of a sequence of calls storage on disk has a result, which
agrees with storage in memory, and a last trim has done its work. -/
def BackendsAgree (m : Mdb) (ops : List StorageOp) : Prop :=
  ∀ fuel, 2 ^ 32 + 1 ≤ fuel → ∀ front, front <+: ops →
    ∃ s, lmdbRun m fuel front = some s ∧
      StoragesAgree m s (memRun front) ∧
      ∀ before iid, front = before ++ [.trim iid] →
        ∃ earlier, lmdbRun m fuel before = some earlier ∧
          TrimmedTo m iid earlier s

/-! ### One call -/

/-- The data of an entry is decoded to a record of an instance. -/
def Decodes (data : Buffer) (iid : Nat) : Prop :=
  ∃ out, paxosAcceptedFromBuffer data = some out ∧ out.iid = iid

/-- Both states have a record for an instance, and the entry on disk is decoded,
or neither has. -/
def SameAt (m : Mdb) (s : m.State) (t : MemStorage) (key : Nat) : Prop :=
  (m.get s key = none ∧ t.records key = none) ∨
    ∃ data record, m.get s key = some (.record data) ∧ Decodes data key ∧
      t.records key = some record

/-- How the two states belong together. -/
structure Mirrors (m : Mdb) (s : m.State) (t : MemStorage) : Prop where
  same : ∀ key, 1 ≤ key → SameAt m s t key
  marker : (m.get s 0 = none ∧ t.trimIid = 0) ∨
    m.get s 0 = some (.trimInstance t.trimIid)
  keyed : ∀ key record, t.records key = some record → record.iid = key

section Calls

variable {m : Mdb} {visited : m.Cursor → Option Nat}

theorem lmdbStorageGet_none {s : m.State} {iid : Nat}
    (missing : m.get s iid = none) : lmdbStorageGet m s iid = some none := by
  rw [lmdbStorageGet, missing]

theorem lmdbStorageGet_congr {s t : m.State} {iid : Nat}
    (same : m.get s iid = m.get t iid) :
    lmdbStorageGet m s iid = lmdbStorageGet m t iid := by
  rw [lmdbStorageGet, lmdbStorageGet, same]

/-- A get has a record exactly when the entry that it finds is decoded. -/
theorem lmdbStorageGet_record {s : m.State} {iid : Nat} {data : Buffer}
    (present : m.get s iid = some (.record data)) :
    (∃ out, lmdbStorageGet m s iid = some (some out)) ↔ Decodes data iid := by
  simp only [lmdbStorageGet, present, Option.bind_eq_bind,
    Option.bind_eq_some_iff, Option.ite_none_right_eq_some, Option.some.injEq]
  constructor
  · rintro ⟨_, out, decoded, same, _⟩
    exact ⟨out, decoded, same.symm⟩
  · rintro ⟨out, decoded, same⟩
    exact ⟨out, out, decoded, same.symm, rfl⟩

theorem Mirrors.agree {s : m.State} {t : MemStorage}
    (mirrors : Mirrors m s t) :
    StoragesAgree m s t := by
  refine ⟨?_, ?_⟩
  · intro mem iid positive
    rw [memStorageGet, Option.isSome_map]
    rcases mirrors.same iid positive with
      ⟨missing, absent⟩ | ⟨data, record, present, decodes, stored⟩
    · refine ⟨none, lmdbStorageGet_none missing, ?_⟩
      rw [absent]
      rfl
    · obtain ⟨out, found⟩ := (lmdbStorageGet_record present).mpr decodes
      refine ⟨some out, found, ?_⟩
      rw [stored]
      rfl
  · unfold lmdbStorageGetTrimInstance
    rcases mirrors.marker with ⟨missing, zero⟩ | present
    · rw [missing, zero]
    · rw [present]

theorem mirrors_new (lawful : m.Lawful visited) :
    Mirrors m m.empty memStorageNew := by
  refine ⟨?_, Or.inl ⟨lawful.get_empty 0, rfl⟩, ?_⟩
  · intro key _
    exact Or.inl ⟨lawful.get_empty key, rfl⟩
  · intro key record found
    cases found

theorem Mirrors.put
    (lawful : m.Lawful visited) {s : m.State} {t : MemStorage}
    (mirrors : Mirrors m s t) (mem : Memory) {acc : PaxosAccepted}
    (positive : 1 ≤ acc.iid) {data : Buffer} (decodes : Decodes data acc.iid) :
    Mirrors m (m.put s acc.iid (.record data)) (memStoragePut mem t acc) := by
  refine ⟨?_, ?_, ?_⟩
  · intro key keyPositive
    unfold SameAt
    simp only [memStoragePut]
    by_cases same : key = acc.iid
    · subst same
      rw [lawful.get_put_self, Function.update_self]
      exact Or.inr ⟨data, _, rfl, decodes, rfl⟩
    · rw [lawful.get_put_of_ne s acc.iid _ key same,
        Function.update_of_ne same]
      exact mirrors.same key keyPositive
  · rw [lawful.get_put_of_ne s acc.iid _ 0 (by omega)]
    exact mirrors.marker
  · exact memStoragePut_keyed mem acc mirrors.keyed

/-- A trim in memory compares the `iid` of each record, which is its key. -/
theorem memStorageTrim_records
    {t : MemStorage}
    (keyed : ∀ key record, t.records key = some record → record.iid = key)
    (iid key : Nat) :
    (memStorageTrim t iid).records key =
      if key ≤ iid then none else t.records key := by
  simp only [memStorageTrim]
  cases found : t.records key with
  | none =>
      rw [ite_self]
      rfl
  | some record =>
      rw [Option.filter_some, keyed key record found]
      by_cases inside : key ≤ iid
      · simp [inside]
      · simp [inside, Nat.lt_of_not_le inside]

theorem Mirrors.trim
    {s after : m.State} {t : MemStorage} (mirrors : Mirrors m s t)
    {iid : Nat} (noted : m.get after 0 = some (.trimInstance iid))
    (records : ∀ key, 1 ≤ key →
      m.get after key = if key ≤ iid then none else m.get s key) :
    Mirrors m after (memStorageTrim t iid) := by
  refine ⟨?_, Or.inr noted, ?_⟩
  · intro key positive
    unfold SameAt
    rw [records key positive, memStorageTrim_records mirrors.keyed]
    by_cases inside : key ≤ iid
    · rw [if_pos inside, if_pos inside]
      exact Or.inl ⟨rfl, rfl⟩
    · rw [if_neg inside, if_neg inside]
      exact mirrors.same key positive
  · intro key record found
    exact mirrors.keyed key record (Option.filter_eq_some_iff.mp found).1

theorem trimmedTo_of_records
    {s after : m.State} {iid : Nat}
    (noted : m.get after 0 = some (.trimInstance iid))
    (records : ∀ key, 1 ≤ key →
      m.get after key = if key ≤ iid then none else m.get s key) :
    TrimmedTo m iid s after := by
  refine ⟨?_, ?_, ?_⟩
  · intro key positive inside
    apply lmdbStorageGet_none
    rw [records key positive, if_pos inside]
  · intro key above
    apply lmdbStorageGet_congr
    rw [records key (by omega), if_neg (by omega)]
  · rw [lmdbStorageGetTrimInstance, noted]

/-- What a put needs of its record: the arrays that the encoder reads, no copy
out of `values`, and an entry with all bytes of the arrays. -/
structure PaxosAccepted.Survives (acc : PaxosAccepted) (valueLen : Nat) :
    Prop where
  encodable : acc.Encodable
  inside : acc.CopiesInside
  whole : valueLen = acc.arraySize

theorem encodeInside_eq_some_iff {found : FieldMemory} {acc : PaxosAccepted}
    {buffer : Buffer} :
    encodeInside found acc = some buffer ↔
      acc.CopiesInside ∧ paxosAcceptedToBuffer found acc = some buffer :=
  Option.ite_none_right_eq_some

/-- A record survives a put exactly when the put has a result and a get decodes
what it has stored. -/
theorem survives_iff
    (lawful : m.Lawful visited) {acc : PaxosAccepted} (inRange : acc.InRange)
    (found : FieldMemory) (valueLen : Nat) (s : m.State) :
    acc.Survives valueLen ↔
      ∃ data, lmdbStoragePut m found valueLen s acc =
          some (m.put s acc.iid (.record data)) ∧
        m.get (m.put s acc.iid (.record data)) acc.iid =
          some (.record data) ∧
        Decodes data acc.iid := by
  constructor
  · rintro ⟨encodable, inside, whole⟩
    obtain ⟨buffer, encoded⟩ := Option.isSome_iff_exists.mp
      ((toBuffer_isSome_iff found acc).mpr encodable)
    have enough : valueLen ≤ buffer.body.length := by
      rw [length_body_toBuffer encoded, whole]
    have cut : buffer.cut valueLen = some ⟨sizeofAccepted + valueLen,
        buffer.image, buffer.body.take valueLen⟩ := if_pos enough
    have decoded := fromBuffer_cut inRange encoded cut
    rw [if_pos whole] at decoded
    refine ⟨_, ?_, lawful.get_put_self s acc.iid _, decoded⟩
    simp only [lmdbStoragePut, encodeInside_eq_some_iff.mpr ⟨inside, encoded⟩,
      Option.bind_eq_bind, Option.bind_some, cut]
  · rintro ⟨data, stored, present, decodes⟩
    simp only [lmdbStoragePut, Option.bind_eq_bind, Option.bind_eq_some_iff,
      Option.some.injEq] at stored
    obtain ⟨buffer, inside, other, cut, same⟩ := stored
    obtain ⟨inside, encoded⟩ := encodeInside_eq_some_iff.mp inside
    have sameData : other = data := by
      rw [← same, lawful.get_put_self] at present
      exact LmdbData.record.inj (Option.some.inj present)
    subst sameData
    refine ⟨(toBuffer_isSome_iff found acc).mp (encoded ▸ rfl), inside, ?_⟩
    by_contra short
    have decoded := fromBuffer_cut inRange encoded cut
    rw [if_neg short] at decoded
    obtain ⟨out, isSome, _⟩ := decodes
    rw [decoded] at isSome
    cases isSome

/-- The record of a put survives it. -/
def StorageOp.Survives : StorageOp → Prop
  | .put _ _ valueLen acc => acc.Survives valueLen
  | .trim _ => True

theorem lmdbStep_mirrors
    (lawful : m.Lawful visited) {fuel : Nat} (enough : 2 ^ 32 + 1 ≤ fuel)
    {s : m.State} {t : MemStorage} (mirrors : Mirrors m s t)
    {op : StorageOp} (valid : op.Valid) (survives : op.Survives) :
    ∃ after, lmdbStep m fuel s op = some after ∧
      Mirrors m after (memStep t op) ∧
      ∀ iid, op = .trim iid → TrimmedTo m iid s after := by
  cases op with
  | put mem found valueLen acc =>
      obtain ⟨data, stored, _, decodes⟩ :=
        (survives_iff lawful valid.2.2 found valueLen s).mp survives
      refine ⟨_, stored, mirrors.put lawful mem valid.1 decodes, ?_⟩
      intro iid isTrim
      cases isTrim
  | trim iid =>
      have bound := valid.2
      obtain ⟨after, ended, noted, records⟩ :=
        lmdbStorageTrim_spec lawful valid.1 (by omega : iid + 2 ≤ fuel) s
      refine ⟨after, ended, mirrors.trim noted records, ?_⟩
      intro iid' isTrim
      cases isTrim
      exact trimmedTo_of_records noted records

/-- After a put that agrees with storage in memory, the record has survived. -/
theorem survives_of_agree
    (lawful : m.Lawful visited) {fuel : Nat} {s after : m.State}
    {t : MemStorage} {mem : Memory} {found : FieldMemory} {valueLen : Nat}
    {acc : PaxosAccepted} (positive : 1 ≤ acc.iid) (inRange : acc.InRange)
    (stepped : lmdbStep m fuel s (.put mem found valueLen acc) = some after)
    (agree : StoragesAgree m after
      (memStep t (.put mem found valueLen acc))) :
    acc.Survives valueLen := by
  have shape := stepped
  simp only [lmdbStep, lmdbStoragePut, Option.bind_eq_bind,
    Option.bind_eq_some_iff, Option.some.injEq] at shape
  obtain ⟨_, _, data, _, rfl⟩ := shape
  have present := lawful.get_put_self s acc.iid (.record data)
  refine (survives_iff lawful inRange found valueLen s).mpr
    ⟨data, stepped, present, ?_⟩
  obtain ⟨out, got, sameFound⟩ := agree.found_iff mem acc.iid positive
  have inMemory : (memStorageGet mem (memStep t (.put mem found valueLen acc))
      acc.iid).isSome := by
    simp only [memStorageGet, memStep, memStoragePut, Function.update_self,
      Option.map_some, Option.isSome_some]
  obtain ⟨restored, isRestored⟩ :=
    Option.isSome_iff_exists.mp (sameFound.mpr inMemory)
  subst isRestored
  exact (lmdbStorageGet_record present).mp ⟨restored, got⟩

end Calls

/-! ### Sequences of calls -/

theorem lmdbRun_append_one (m : Mdb) (fuel : Nat) (ops : List StorageOp)
    (op : StorageOp) :
    lmdbRun m fuel (ops ++ [op]) =
      (lmdbRun m fuel ops).bind fun s => lmdbStep m fuel s op := by
  simp only [lmdbRun, List.foldlM_append, List.foldlM_cons, List.foldlM_nil]
  cases ops.foldlM (lmdbStep m fuel) m.empty with
  | none => rfl
  | some s => exact Option.bind_fun_some _

theorem memRun_append_one (ops : List StorageOp) (op : StorageOp) :
    memRun (ops ++ [op]) = memStep (memRun ops) op := by
  rw [memRun, List.foldl_append]
  rfl

section Sequences

variable {m : Mdb} {visited : m.Cursor → Option Nat}

theorem lmdbRun_mirrors
    (lawful : m.Lawful visited) {fuel : Nat} (enough : 2 ^ 32 + 1 ≤ fuel)
    (ops : List StorageOp) :
    (∀ op ∈ ops, op.Valid) → (∀ op ∈ ops, op.Survives) →
      ∃ s, lmdbRun m fuel ops = some s ∧ Mirrors m s (memRun ops) := by
  induction ops using List.reverseRecOn with
  | nil =>
      intro _ _
      exact ⟨m.empty, rfl, mirrors_new lawful⟩
  | append_singleton before op inductionHypothesis =>
      intro valid survives
      rw [List.forall_mem_append] at valid survives
      obtain ⟨s, ran, mirrors⟩ :=
        inductionHypothesis valid.1 survives.1
      obtain ⟨after, stepped, next, _⟩ := lmdbStep_mirrors lawful enough
        mirrors (valid.2 op List.mem_cons_self)
        (survives.2 op List.mem_cons_self)
      refine ⟨after, ?_, ?_⟩
      · rw [lmdbRun_append_one, ran]
        exact stepped
      · rw [memRun_append_one]
        exact next

/-- Over every sequence of calls storage on disk gets through it and the
backends agree, exactly when every record that is put survives it. -/
theorem backends_agree_iff
    (lawful : m.Lawful visited) {ops : List StorageOp}
    (valid : ∀ op ∈ ops, op.Valid) :
    BackendsAgree m ops ↔
      ∀ mem found valueLen acc, StorageOp.put mem found valueLen acc ∈ ops →
        acc.Survives valueLen := by
  constructor
  · intro agree mem found valueLen acc member
    have bounds := valid _ member
    obtain ⟨before, after, split⟩ := List.mem_iff_append.mp member
    have isFront : before ++ [.put mem found valueLen acc] <+: ops :=
      ⟨after, by rw [split, List.append_assoc]; rfl⟩
    obtain ⟨s, ran, same, _⟩ := agree (2 ^ 32 + 1) (Nat.le_refl _) _ isFront
    rw [lmdbRun_append_one, Option.bind_eq_some_iff] at ran
    obtain ⟨earlier, _, stepped⟩ := ran
    rw [memRun_append_one] at same
    exact survives_of_agree lawful bounds.1 bounds.2.2 stepped same
  · intro survives fuel enough front isFront
    have all : ∀ op ∈ ops, op.Survives := by
      intro op member
      cases op with
      | put mem found valueLen acc => exact survives _ _ _ _ member
      | trim iid => trivial
    have frontValid : ∀ op ∈ front, op.Valid :=
      fun op member => valid op (isFront.subset member)
    have frontAll : ∀ op ∈ front, op.Survives :=
      fun op member => all op (isFront.subset member)
    obtain ⟨s, ran, mirrors⟩ :=
      lmdbRun_mirrors lawful enough front frontValid frontAll
    refine ⟨s, ran, mirrors.agree, ?_⟩
    rintro before iid rfl
    rw [List.forall_mem_append] at frontValid frontAll
    obtain ⟨earlier, earlierRan, earlierMirrors⟩ :=
      lmdbRun_mirrors lawful enough before frontValid.1 frontAll.1
    obtain ⟨after, stepped, _, trimmed⟩ := lmdbStep_mirrors lawful enough
      earlierMirrors (frontValid.2 _ List.mem_cons_self) trivial
    rw [lmdbRun_append_one, earlierRan, Option.bind_some, stepped] at ran
    cases ran
    exact ⟨earlier, earlierRan, trimmed iid rfl⟩

end Sequences

/-- A list of entries is such a library. -/
theorem entries_lawful :
    Mdb.Lawful (CursorStore.ofEntries Nat LmdbData)
      (fun cursor : Option Nat => cursor) := by
  have order : (fun lid rid => lmdbCompareIid lid rid < 0) =
      ((· < ·) : Nat → Nat → Prop) :=
    funext₂ fun lid rid => propext (lmdbCompareIid_neg_iff lid rid)
  unfold Mdb.Lawful
  rw [order]
  exact CursorStore.ofEntries_lawful

/-- Two accepted records are stored in entries of their whole size, and the
first of them is trimmed. -/
theorem backends_agree_accepted :
    BackendsAgree (CursorStore.ofEntries Nat LmdbData)
      [.put Memory.zero (fun _ _ => 0) 17
          (paxosAcceptToAccepted 0 ⟨2, 1, 7, ⟨[3]⟩⟩),
        .put Memory.zero (fun _ _ => 0) 17
          (paxosAcceptToAccepted 0 ⟨2, 5, 7, ⟨[4]⟩⟩),
        .trim 3] := by
  refine (backends_agree_iff entries_lawful ?_).mpr ?_
  · have inRange : ∀ iid byte,
        (paxosAcceptToAccepted 0 ⟨2, iid, 7, ⟨[byte]⟩⟩).InRange := by
      intro iid byte
      have small : ∀ bound word : Nat, word < bound →
          ∀ other ∈ [word], other < bound := by
        intro bound word inBound other member
        rwa [List.mem_singleton.mp member]
      refine ⟨small _ 0 (by decide), small _ 7 (by decide),
        small _ 7 (by decide), ?_⟩
      intro array present value member
      cases present
      rw [List.mem_singleton.mp member]
      exact (by decide : 1 < 2 ^ 31)
    intro op member
    simp only [List.mem_cons, List.not_mem_nil, or_false] at member
    rcases member with rfl | rfl | rfl
    · exact ⟨by decide, by decide, inRange 1 3⟩
    · exact ⟨by decide, by decide, inRange 5 4⟩
    · exact ⟨by decide, by decide⟩
  · intro mem found valueLen acc member
    simp only [List.mem_cons, List.not_mem_nil, or_false] at member
    rcases member with isPut | isPut | isPut
    · cases isPut
      exact ⟨Or.inr ⟨⟨_, rfl, by decide⟩, by decide, by decide, by decide⟩,
        by decide, rfl⟩
    · cases isPut
      exact ⟨Or.inr ⟨⟨_, rfl, by decide⟩, by decide, by decide, by decide⟩,
        by decide, rfl⟩
    · cases isPut

/-- The record of a prepare has no values, which stops storage on disk whatever
the size of the entry.  An accepted record is cut off when the length in its
`value_0` gives the size, and a get then reads past the entry. -/
theorem backends_differ_without_values :
    (∀ valueLen, ¬ BackendsAgree (CursorStore.ofEntries Nat LmdbData)
      [.put Memory.zero (fun _ _ => 0) valueLen
        (preparedRecord 2 0 PaxosAccepted.zeroed ⟨2, 1, 7⟩)]) ∧
    ¬ BackendsAgree (CursorStore.ofEntries Nat LmdbData)
      [.put Memory.zero (fun _ _ => 0)
        (paxosAcceptToAccepted 0 ⟨2, 1, 7, ⟨[3]⟩⟩).value0.len
        (paxosAcceptToAccepted 0 ⟨2, 1, 7, ⟨[3]⟩⟩)] := by
  constructor
  · intro valueLen agree
    obtain ⟨s, ran, _⟩ :=
      agree (2 ^ 32 + 1) (Nat.le_refl _) _ List.prefix_rfl
    cases ran
  · intro agree
    obtain ⟨s, ran, same, _⟩ :=
      agree (2 ^ 32 + 1) (Nat.le_refl _) _ List.prefix_rfl
    cases ran
    obtain ⟨out, got, _⟩ := same.found_iff Memory.zero 1 (Nat.le_refl 1)
    cases got

end LibPaxos
