import DbtNova.Error
import Mathlib.Algebra.Order.Ring.Nat
import Mathlib.Logic.Function.Basic

/-!
# The store of entities

`EntityStoreBuilder` appends the bytes of every entity to one file and keeps in an index where
they are; `EntityStore` reads them back from the mapped file. The codecs and the file system are
parameters, so that every failure the source provides for has its branch. A writer is taken as
one without a buffer.
-/
namespace DbtNova.EntityFiles

def entitySchemaVersion : ℕ := 8

/-- The longest file that an offset of the operating system reaches. -/
def maxFileLen : ℕ := 2 ^ 63 - 1

def usizeMax : ℕ := 2 ^ 64 - 1

abbrev Bytes := List UInt8

/-- Offset and length by the ids of the entities. -/
abbrev Index := String → Option (UInt64 × UInt64)

structure EntityChecksums where
  schemaVersion : ℕ
  dataHash : String
  dataLen : ℕ
  indexHash : String
  indexLen : ℕ
  deriving DecidableEq, Repr

/-- The serializers and the hash. The error of `parseIndex` is converted already. -/
structure Codec (E A : Type) where
  toBytes : E → Except String Bytes
  fromBytes : Bytes → Except String E
  access : Bytes → Except String A
  indexJson : Index → Except String Bytes
  parseIndex : Bytes → Result Index
  checksumsJson : EntityChecksums → Except String Bytes
  parseChecksums : Bytes → Except String EntityChecksums
  hash : Bytes → String

/-! ## Files -/

inductive StoreFile where
  | data | index | checksums
  deriving DecidableEq, Repr

/-- A second attempt to rename a file is an operation of its own. -/
inductive Operation where
  | createDir
  | create (file : StoreFile)
  | write (file : StoreFile)
  | flush
  | rename (file : StoreFile) (again : Bool)
  | remove (file : StoreFile)
  | openFile (file : StoreFile)
  | read (file : StoreFile)
  | map
  deriving DecidableEq, Repr

/-- The errors of the file system. -/
abbrev Io := Operation → Option String

/-- The files of a storage directory, by their final names. -/
abbrev Files := StoreFile → Option Bytes

def attempt (io : Io) (operation : Operation) : Result Unit :=
  match io operation with
  | some e => .error (.ioError e)
  | none => .ok ()

/-- A temporary file takes the place of a file. -/
def replaceFile (io : Io) (files : Files) (file : StoreFile) (contents : Bytes) : Result Files :=
  match io (.rename file false) with
  | none => .ok (Function.update files file (some contents))
  | some e =>
      if (files file).isSome then do
        attempt io (.remove file)
        attempt io (.rename file true)
        return Function.update files file (some contents)
      else .error (.serverError e)

def serialize (io : Io) (file : StoreFile) (json : Except String Bytes) : Except String Bytes :=
  match json, io (.write file) with
  | .error e, _ => .error e
  | .ok _, some e => .error e
  | .ok contents, none => .ok contents

def readFile (io : Io) (files : Files) (file : StoreFile) : Result Bytes := do
  attempt io (.openFile file)
  match files file with
  | none => .error (.ioError "No such file or directory (os error 2)")
  | some contents => do
      attempt io (.read file)
      return contents

section Store
variable {E A : Type}

def hashFile (codec : Codec E A) (io : Io) (files : Files) (file : StoreFile) :
    Result (String × ℕ) := do
  let contents ← readFile io files file
  return (codec.hash contents, contents.length)

/-! ## Building -/

structure EntityStoreBuilder where
  written : Bytes
  index : Index
  offset : UInt64

def EntityStoreBuilder.new (io : Io) : Result EntityStoreBuilder := do
  attempt io .createDir
  attempt io (.create .data)
  return ⟨[], fun _ => none, 0⟩

def writeAll (io : Io) (written bytes : Bytes) : Result Bytes :=
  if maxFileLen < (written ++ bytes).length then .error (.ioError "File too large (os error 27)")
  else do
    attempt io (.write .data)
    return written ++ bytes

def add (codec : Codec E A) (io : Io) (builder : EntityStoreBuilder) (uniqueId : String)
    (entity : E) : Result EntityStoreBuilder :=
  match codec.toBytes entity with
  | .error e =>
      .error (.serverError ("Failed to serialize entity " ++ uniqueId ++ ": " ++ e))
  | .ok bytes => do
      let len := UInt64.ofNat bytes.length
      let written ← writeAll io builder.written bytes
      return ⟨written, Function.update builder.index uniqueId (some (builder.offset, len)),
        builder.offset + len⟩

def addAll (codec : Codec E A) (io : Io) :
    EntityStoreBuilder → List (String × E) → Result EntityStoreBuilder
  | builder, [] => .ok builder
  | builder, (uniqueId, entity) :: adds => do
      let next ← add codec io builder uniqueId entity
      addAll codec io next adds

/-- A new builder with some adds behind it. -/
def build (codec : Codec E A) (io : Io) (adds : List (String × E)) :
    Result EntityStoreBuilder := do
  let builder ← EntityStoreBuilder.new io
  addAll codec io builder adds

/-- Bytes of at most `isize::MAX` in length, as a mapping is. -/
structure Mmap where
  bytes : Bytes
  length_le : bytes.length ≤ maxFileLen

structure EntityStore where
  dataMap : Mmap
  index : Index

def mapFile (io : Io) (contents : Bytes) : Result Mmap := do
  attempt io .map
  if h : contents.length ≤ maxFileLen then return ⟨contents, h⟩
  else .error (.ioError "memory map length overflows isize")

def checkFile (codec : Codec E A) (io : Io) (files : Files) (file : StoreFile) (name hash : String)
    (len : ℕ) : Result Unit := do
  let found ← hashFile codec io files file
  if found.2 ≠ len ∨ found.1 ≠ hash then
    .error (.serverError ("Entity store checksum mismatch for " ++ name))
  else .ok ()

def readChecksums (codec : Codec E A) (io : Io) (files : Files) : Result EntityChecksums :=
  if (files .checksums).isSome then do
    let contents ← readFile io files .checksums
    match codec.parseChecksums contents with
    | .error e => .error (.serverError ("Invalid entity checksum file: " ++ e))
    | .ok checksums =>
        if checksums.schemaVersion ≠ entitySchemaVersion then
          .error (.serverError ("Entity store schema version mismatch (" ++
            toString checksums.schemaVersion ++ " != " ++ toString entitySchemaVersion ++ ")"))
        else .ok checksums
  else .error (.serverError "Entity checksum file missing; refusing to open store")

def EntityStore.open (codec : Codec E A) (io : Io) (files : Files) : Result EntityStore := do
  let checksums ← readChecksums codec io files
  checkFile codec io files .data "entities.bin" checksums.dataHash checksums.dataLen
  checkFile codec io files .index "entities.idx" checksums.indexHash checksums.indexLen
  let indexContents ← readFile io files .index
  let index ← codec.parseIndex indexContents
  let data ← readFile io files .data
  let dataMap ← mapFile io data
  return ⟨dataMap, index⟩

def writeChecksums (codec : Codec E A) (io : Io) (files : Files) : Result Files := do
  let data ← hashFile codec io files .data
  let index ← hashFile codec io files .index
  attempt io (.create .checksums)
  let checksums := ⟨entitySchemaVersion, data.1, data.2, index.1, index.2⟩
  match serialize io .checksums (codec.checksumsJson checksums) with
  | .error e => .error (.manifestError ("Failed to serialize entity checksums: " ++ e))
  | .ok contents => replaceFile io files .checksums contents

def writeIndex (codec : Codec E A) (io : Io) (files : Files) (index : Index) : Result Files := do
  attempt io (.create .index)
  match serialize io .index (codec.indexJson index) with
  | .error e => .error (.manifestError ("Failed to serialize entity index: " ++ e))
  | .ok contents => replaceFile io files .index contents

/-- The store, and the files it is in. -/
def finish (codec : Codec E A) (io : Io) (builder : EntityStoreBuilder) (files : Files) :
    Result (Files × EntityStore) := do
  attempt io .flush
  let withData ← replaceFile io files .data builder.written
  let withIndex ← writeIndex codec io withData builder.index
  let withChecksums ← writeChecksums codec io withIndex
  let store ← EntityStore.open codec io withChecksums
  return (withChecksums, store)

/-! ## Reading -/

/-- A part of the bytes, where there is one: else the source panics. -/
def slice (bytes : Bytes) (start stop : ℕ) : Option Bytes :=
  if start ≤ stop ∧ stop ≤ bytes.length then some ((bytes.take stop).drop start) else none

/-- The bytes of an entity, unless it has no entry or a bad one. -/
def recordBytes (store : EntityStore) (uniqueId : String) : Option (Result (Option Bytes)) :=
  match store.index uniqueId with
  | none => some (.ok none)
  | some (offset, len) =>
      if usizeMax < offset.toNat then
        some (.error (.serverError ("Entity store offset out of bounds for " ++ uniqueId)))
      else if usizeMax < len.toNat then
        some (.error (.serverError ("Entity store length out of bounds for " ++ uniqueId)))
      else
        let stop := min (offset.toNat + len.toNat) usizeMax
        if store.dataMap.bytes.length < stop then
          some (.error (.serverError ("Entity store index out of bounds for " ++ uniqueId)))
        else (slice store.dataMap.bytes offset.toNat stop).map fun bytes => .ok (some bytes)

/-- What is decoded from the bytes of an entity; `none` for a panic. -/
def getWith {D : Type} (decode : Bytes → Except String D) (failure : String)
    (store : EntityStore) (uniqueId : String) : Option (Result (Option D)) :=
  (recordBytes store uniqueId).map fun found => do
    match ← found with
    | none => return none
    | some bytes =>
        match decode bytes with
        | .error e => .error (.serverError (failure ++ uniqueId ++ ": " ++ e))
        | .ok entity => return some entity

def getInternal (codec : Codec E A) : EntityStore → String → Option (Result (Option E)) :=
  getWith codec.fromBytes "Failed to deserialize entity "

def getArchived (codec : Codec E A) : EntityStore → String → Option (Result (Option A)) :=
  getWith codec.access "Failed to access archived entity "

def contains (store : EntityStore) (uniqueId : String) : Bool := (store.index uniqueId).isSome

/-! ## Faithful files -/

section Faithful
variable {codec : Codec E A} {io : Io} (hio : ∀ operation, io operation = none)
include hio

theorem attempt_ok (operation : Operation) : attempt io operation = .ok () := by
  unfold attempt
  rw [hio]

theorem replaceFile_ok (files : Files) (file : StoreFile) (contents : Bytes) :
    replaceFile io files file contents = .ok (Function.update files file (some contents)) := by
  unfold replaceFile
  rw [hio]

theorem readFile_ok {files : Files} {file : StoreFile} {contents : Bytes}
    (h : files file = some contents) : readFile io files file = .ok contents := by
  unfold readFile
  refine bind_eq_ok.mpr ⟨(), attempt_ok hio _, ?_⟩
  rw [h]
  exact bind_eq_ok.mpr ⟨(), attempt_ok hio _, rfl⟩

theorem hashFile_ok {files : Files} {file : StoreFile} {contents : Bytes}
    (h : files file = some contents) :
    hashFile codec io files file = .ok (codec.hash contents, contents.length) :=
  bind_eq_ok.mpr ⟨contents, readFile_ok hio h, rfl⟩

theorem checkFile_ok {files : Files} {file : StoreFile} {contents : Bytes}
    (h : files file = some contents) (name : String) :
    checkFile codec io files file name (codec.hash contents) contents.length = .ok () := by
  refine bind_eq_ok.mpr ⟨_, hashFile_ok hio h, ?_⟩
  exact if_neg (not_or.mpr ⟨not_not.mpr rfl, not_not.mpr rfl⟩)

theorem serialize_ok (file : StoreFile) (contents : Bytes) :
    serialize io file (.ok contents) = .ok contents := by
  unfold serialize
  rw [hio]

theorem writeIndex_ok {index : Index} {contents : Bytes}
    (h : codec.indexJson index = .ok contents) (files : Files) :
    writeIndex codec io files index = .ok (Function.update files .index (some contents)) := by
  refine bind_eq_ok.mpr ⟨(), attempt_ok hio _, ?_⟩
  rw [h, serialize_ok hio]
  exact replaceFile_ok hio _ _ _

theorem writeChecksums_ok {files : Files} {data index contents : Bytes}
    (hdata : files .data = some data) (hindex : files .index = some index)
    (h : codec.checksumsJson ⟨entitySchemaVersion, codec.hash data, data.length,
      codec.hash index, index.length⟩ = .ok contents) :
    writeChecksums codec io files = .ok (Function.update files .checksums (some contents)) := by
  refine bind_eq_ok.mpr ⟨_, hashFile_ok hio hdata, ?_⟩
  refine bind_eq_ok.mpr ⟨_, hashFile_ok hio hindex, ?_⟩
  refine bind_eq_ok.mpr ⟨(), attempt_ok hio _, ?_⟩
  dsimp only
  rw [h, serialize_ok hio]
  exact replaceFile_ok hio _ _ _

theorem mapFile_ok {contents : Bytes} (h : contents.length ≤ maxFileLen) :
    mapFile io contents = .ok ⟨contents, h⟩ :=
  bind_eq_ok.mpr ⟨(), attempt_ok hio _, dif_pos h⟩

/-- A store is opened when its files are there, with checksums of these very files. -/
theorem open_ok {files : Files} {data indexContents contents : Bytes} {index : Index}
    (hdata : files .data = some data) (hindex : files .index = some indexContents)
    (hchecksums : files .checksums = some contents)
    (hparse : codec.parseChecksums contents = .ok ⟨entitySchemaVersion, codec.hash data,
      data.length, codec.hash indexContents, indexContents.length⟩)
    (hparseIndex : codec.parseIndex indexContents = .ok index)
    (hlength : data.length ≤ maxFileLen) :
    EntityStore.open codec io files = .ok ⟨⟨data, hlength⟩, index⟩ := by
  have hread : readChecksums codec io files = .ok ⟨entitySchemaVersion, codec.hash data,
      data.length, codec.hash indexContents, indexContents.length⟩ := by
    unfold readChecksums
    rw [hchecksums, Option.isSome_some, if_pos rfl]
    refine bind_eq_ok.mpr ⟨contents, readFile_ok hio hchecksums, ?_⟩
    rw [hparse]
    exact if_neg (not_not.mpr rfl)
  refine bind_eq_ok.mpr ⟨_, hread, ?_⟩
  refine bind_eq_ok.mpr ⟨(), checkFile_ok hio hdata _, ?_⟩
  refine bind_eq_ok.mpr ⟨(), checkFile_ok hio hindex _, ?_⟩
  refine bind_eq_ok.mpr ⟨_, readFile_ok hio hindex, ?_⟩
  refine bind_eq_ok.mpr ⟨_, hparseIndex, ?_⟩
  refine bind_eq_ok.mpr ⟨_, readFile_ok hio hdata, ?_⟩
  exact bind_eq_ok.mpr ⟨_, mapFile_ok hio hlength, rfl⟩

theorem finish_ok {builder : EntityStoreBuilder} {indexContents contents : Bytes} {index : Index}
    (hlength : builder.written.length ≤ maxFileLen)
    (hindex : codec.indexJson builder.index = .ok indexContents)
    (hparseIndex : codec.parseIndex indexContents = .ok index)
    (hjson : codec.checksumsJson ⟨entitySchemaVersion, codec.hash builder.written,
      builder.written.length, codec.hash indexContents, indexContents.length⟩ = .ok contents)
    (hparse : codec.parseChecksums contents = .ok ⟨entitySchemaVersion,
      codec.hash builder.written, builder.written.length, codec.hash indexContents,
      indexContents.length⟩) (files : Files) :
    ∃ after, EntityStore.open codec io after = .ok ⟨⟨builder.written, hlength⟩, index⟩ ∧
      finish codec io builder files = .ok (after, ⟨⟨builder.written, hlength⟩, index⟩) := by
  have hopen := @open_ok E A codec io hio (Function.update (Function.update
    (Function.update files .data (some builder.written)) .index (some indexContents))
    .checksums (some contents)) builder.written indexContents contents index rfl rfl rfl hparse
    hparseIndex hlength
  refine ⟨_, hopen, bind_eq_ok.mpr ⟨(), attempt_ok hio _, ?_⟩⟩
  refine bind_eq_ok.mpr ⟨_, replaceFile_ok hio _ _ _, ?_⟩
  refine bind_eq_ok.mpr ⟨_, writeIndex_ok hio hindex _, ?_⟩
  have hwritten := @writeChecksums_ok E A codec io hio
    (Function.update (Function.update files .data (some builder.written)) .index
      (some indexContents)) builder.written indexContents contents rfl rfl hjson
  refine bind_eq_ok.mpr ⟨_, hwritten, ?_⟩
  exact bind_eq_ok.mpr ⟨_, hopen, rfl⟩

end Faithful

/-! ## What the builder has written -/

/-- The entity that was added last under an id. -/
def lastAdd (adds : List (String × E)) (uniqueId : String) : Option E :=
  (adds.reverse.find? fun entry => entry.1 == uniqueId).map Prod.snd

theorem lastAdd_append (adds : List (String × E)) (uniqueId other : String) (entity : E) :
    lastAdd (adds ++ [(uniqueId, entity)]) other =
      if uniqueId = other then some entity else lastAdd adds other := by
  unfold lastAdd
  rw [List.reverse_append, List.reverse_singleton, List.singleton_append, List.find?_cons]
  by_cases h : uniqueId = other
  · rw [if_pos h, beq_iff_eq.mpr h]
    rfl
  · rw [if_neg h, beq_eq_false_iff_ne.mpr h]

/-- The place of an entity in the written bytes. -/
structure Holds (codec : Codec E A) (written : Bytes) (place : UInt64 × UInt64) (entity : E) :
    Prop where
  inside : place.1.toNat + place.2.toNat ≤ written.length
  bytes : codec.toBytes entity =
    .ok ((written.take (place.1.toNat + place.2.toNat)).drop place.1.toNat)

def Apart (a b : UInt64 × UInt64) : Prop :=
  a.1.toNat + a.2.toNat ≤ b.1.toNat ∨ b.1.toNat + b.2.toNat ≤ a.1.toNat

/-- The state of a builder behind some adds. -/
structure Built (codec : Codec E A) (adds : List (String × E)) (builder : EntityStoreBuilder) :
    Prop where
  offset_eq : builder.offset.toNat = builder.written.length
  length_le : builder.written.length ≤ maxFileLen
  absent : ∀ id, lastAdd adds id = none → builder.index id = none
  holds : ∀ id entity, lastAdd adds id = some entity →
    ∃ place, builder.index id = some place ∧ Holds codec builder.written place entity
  apart : ∀ id other a b, id ≠ other → builder.index id = some a → builder.index other = some b →
    Apart a b

theorem Holds.append {codec : Codec E A} {written : Bytes} {place : UInt64 × UInt64} {entity : E}
    (h : Holds codec written place entity) (bytes : Bytes) :
    Holds codec (written ++ bytes) place entity := by
  constructor
  · rw [List.length_append]
    exact h.inside.trans (Nat.le_add_right _ _)
  · rw [List.take_append_of_le_length h.inside]
    exact h.bytes

theorem add_cases {codec : Codec E A} {io : Io} {builder next : EntityStoreBuilder}
    {uniqueId : String} {entity : E} (h : add codec io builder uniqueId entity = .ok next) :
    ∃ bytes, codec.toBytes entity = .ok bytes ∧
      (builder.written ++ bytes).length ≤ maxFileLen ∧
      next = ⟨builder.written ++ bytes, Function.update builder.index uniqueId
        (some (builder.offset, UInt64.ofNat bytes.length)),
        builder.offset + UInt64.ofNat bytes.length⟩ := by
  unfold add at h
  cases hbytes : codec.toBytes entity with
  | error e =>
      rw [hbytes] at h
      cases h
  | ok bytes =>
      rw [hbytes] at h
      obtain ⟨written, hwritten, hnext⟩ := bind_eq_ok.mp h
      unfold writeAll at hwritten
      by_cases hlong : maxFileLen < (builder.written ++ bytes).length
      · rw [if_pos hlong] at hwritten
        cases hwritten
      · rw [if_neg hlong] at hwritten
        obtain ⟨_, _, heq⟩ := bind_eq_ok.mp hwritten
        rw [← Except.ok.inj heq] at hnext
        exact ⟨bytes, rfl, Nat.not_lt.mp hlong, (Except.ok.inj hnext).symm⟩

theorem toNat_length {bytes : Bytes} (h : bytes.length ≤ maxFileLen) :
    (UInt64.ofNat bytes.length).toNat = bytes.length := by
  rw [UInt64.toNat_ofNat']
  unfold maxFileLen at h
  omega

theorem toNat_offset {offset : UInt64} {written bytes : Bytes}
    (hoffset : offset.toNat = written.length) (h : (written ++ bytes).length ≤ maxFileLen) :
    (offset + UInt64.ofNat bytes.length).toNat = (written ++ bytes).length := by
  rw [List.length_append] at h ⊢
  rw [UInt64.toNat_add, toNat_length (le_of_add_le_right h), hoffset]
  unfold maxFileLen at h
  omega

/-- A new entity is put behind all that is written, and its id gets its place. -/
theorem Built.add {codec : Codec E A} {io : Io} {adds : List (String × E)}
    {builder next : EntityStoreBuilder} {uniqueId : String} {entity : E}
    (h : Built codec adds builder) (hadd : add codec io builder uniqueId entity = .ok next) :
    Built codec (adds ++ [(uniqueId, entity)]) next := by
  obtain ⟨bytes, hbytes, hlength, rfl⟩ := add_cases hadd
  have hlen : (UInt64.ofNat bytes.length).toNat = bytes.length := by
    rw [List.length_append] at hlength
    exact toNat_length (le_of_add_le_right hlength)
  have hnew : Holds codec (builder.written ++ bytes)
      (builder.offset, UInt64.ofNat bytes.length) entity := by
    constructor
    · rw [hlen, h.offset_eq, List.length_append]
    · dsimp only
      rw [hlen, h.offset_eq, ← List.length_append, List.take_length, List.drop_left]
      exact hbytes
  have hbehind : ∀ other place, builder.index other = some place →
      place.1.toNat + place.2.toNat ≤ builder.offset.toNat := by
    intro other place hplace
    cases hlast : lastAdd adds other with
    | none =>
        rw [h.absent other hlast] at hplace
        cases hplace
    | some old =>
        obtain ⟨found, hfound, hholds⟩ := h.holds other old hlast
        rw [hplace] at hfound
        rw [Option.some.inj hfound, h.offset_eq]
        exact hholds.inside
  refine ⟨toNat_offset h.offset_eq hlength, hlength, fun id hid => ?_, fun id e hid => ?_,
    fun id other a b hne ha hb => ?_⟩
  · rw [lastAdd_append] at hid
    by_cases heq : uniqueId = id
    · rw [if_pos heq] at hid
      cases hid
    · rw [if_neg heq] at hid
      dsimp only
      rw [Function.update_of_ne (Ne.symm heq)]
      exact h.absent id hid
  · rw [lastAdd_append] at hid
    by_cases heq : uniqueId = id
    · rw [if_pos heq] at hid
      rw [← Option.some.inj hid, ← heq]
      exact ⟨_, Function.update_self .., hnew⟩
    · rw [if_neg heq] at hid
      obtain ⟨place, hplace, hholds⟩ := h.holds id e hid
      exact ⟨place, (Function.update_of_ne (Ne.symm heq) ..).trans hplace, hholds.append bytes⟩
  · dsimp only at ha hb
    by_cases hid : id = uniqueId
    · rw [hid, Function.update_self] at ha
      rw [Function.update_of_ne (hid ▸ hne.symm)] at hb
      rw [← Option.some.inj ha]
      exact Or.inr (hbehind other b hb)
    · rw [Function.update_of_ne hid] at ha
      by_cases hother : other = uniqueId
      · rw [hother, Function.update_self] at hb
        rw [← Option.some.inj hb]
        exact Or.inl (hbehind id a ha)
      · rw [Function.update_of_ne hother] at hb
        exact h.apart id other a b hne ha hb

theorem new_built {codec : Codec E A} {io : Io} {builder : EntityStoreBuilder}
    (h : EntityStoreBuilder.new io = .ok builder) : Built codec [] builder := by
  obtain ⟨_, _, hcreate⟩ := bind_eq_ok.mp h
  obtain ⟨_, _, hnew⟩ := bind_eq_ok.mp hcreate
  rw [← Except.ok.inj hnew]
  exact ⟨rfl, Nat.zero_le _, fun _ _ => rfl, nofun, nofun⟩

theorem addAll_built {codec : Codec E A} {io : Io} {before adds : List (String × E)}
    {builder last : EntityStoreBuilder} (h : Built codec before builder)
    (hadds : addAll codec io builder adds = .ok last) : Built codec (before ++ adds) last := by
  induction adds generalizing before builder with
  | nil =>
      rw [addAll] at hadds
      rw [List.append_nil, ← Except.ok.inj hadds]
      exact h
  | cons entry adds ih =>
      obtain ⟨next, hadd, hrest⟩ := bind_eq_ok.mp hadds
      have hlast := ih (h.add hadd) hrest
      rw [List.append_assoc] at hlast
      exact hlast

theorem build_built {codec : Codec E A} {io : Io} {adds : List (String × E)}
    {builder : EntityStoreBuilder} (h : build codec io adds = .ok builder) :
    Built codec adds builder := by
  obtain ⟨first, hfirst, hadds⟩ := bind_eq_ok.mp h
  exact addAll_built (new_built hfirst) hadds

/-! ## What the store gives back -/

theorem slice_of_le {bytes : Bytes} {start stop : ℕ} (hstart : start ≤ stop)
    (hstop : stop ≤ bytes.length) : slice bytes start stop = some ((bytes.take stop).drop start) :=
  if_pos ⟨hstart, hstop⟩

section Read
variable {store : EntityStore} {uniqueId : String} {place : UInt64 × UInt64}

theorem maxFileLen_lt : maxFileLen < usizeMax := by decide

/-- An entry of the index inside the file. -/
theorem recordBytes_inside (h : store.index uniqueId = some place)
    (hinside : place.1.toNat + place.2.toNat ≤ store.dataMap.bytes.length) :
    recordBytes store uniqueId = some (.ok (some ((store.dataMap.bytes.take
      (place.1.toNat + place.2.toNat)).drop place.1.toNat))) := by
  have hlength := store.dataMap.length_le
  have hmax := maxFileLen_lt
  have hstop : min (place.1.toNat + place.2.toNat) usizeMax = place.1.toNat + place.2.toNat := by
    omega
  unfold recordBytes
  rw [h]
  dsimp only
  rw [if_neg (by omega), if_neg (by omega), hstop, if_neg (by omega),
    slice_of_le (Nat.le_add_right _ _) hinside]
  rfl

/-- An entry of the index outside the file, of any offset and length. -/
theorem recordBytes_outside (h : store.index uniqueId = some place)
    (houtside : store.dataMap.bytes.length < place.1.toNat + place.2.toNat) :
    recordBytes store uniqueId =
      some (.error (.serverError ("Entity store index out of bounds for " ++ uniqueId))) := by
  have hlength := store.dataMap.length_le
  have hmax := maxFileLen_lt
  have hoffset : place.1.toNat ≤ usizeMax := Nat.le_of_lt_succ place.1.toNat_lt
  have hlen : place.2.toNat ≤ usizeMax := Nat.le_of_lt_succ place.2.toNat_lt
  unfold recordBytes
  rw [h]
  dsimp only
  rw [if_neg (Nat.not_lt.mpr hoffset), if_neg (Nat.not_lt.mpr hlen), if_pos (by omega)]

theorem recordBytes_absent (h : store.index uniqueId = none) :
    recordBytes store uniqueId = some (.ok none) := by
  unfold recordBytes
  rw [h]

theorem getWith_ok {D : Type} {decode : Bytes → Except String D} {bytes : Bytes} {decoded : D}
    (h : recordBytes store uniqueId = some (.ok (some bytes))) (hdecode : decode bytes = .ok decoded)
    (failure : String) : getWith decode failure store uniqueId = some (.ok (some decoded)) := by
  unfold getWith
  rw [h, Option.map_some]
  refine congrArg some (bind_eq_ok.mpr ⟨_, rfl, ?_⟩)
  dsimp only
  rw [hdecode]
  rfl

theorem recordBytes_isSome (store : EntityStore) (uniqueId : String) :
    (recordBytes store uniqueId).isSome = true := by
  cases h : store.index uniqueId with
  | none =>
      unfold recordBytes
      rw [h]
      rfl
  | some place =>
      cases Nat.lt_or_ge store.dataMap.bytes.length (place.1.toNat + place.2.toNat) with
      | inl hout => rw [recordBytes_outside h hout, Option.isSome_some]
      | inr hin => rw [recordBytes_inside h hin, Option.isSome_some]

end Read

theorem lastAdd_eq_none {adds : List (String × E)} {uniqueId : String} :
    lastAdd adds uniqueId = none ↔ ∀ entity, (uniqueId, entity) ∉ adds := by
  unfold lastAdd
  rw [Option.map_eq_none_iff, List.find?_eq_none]
  constructor
  · intro h entity hmem
    exact h _ (List.mem_reverse.mpr hmem) (beq_self_eq_true uniqueId)
  · rintro h ⟨id, entity⟩ hmem heq
    rw [beq_iff_eq] at heq
    exact h entity (heq ▸ List.mem_reverse.mp hmem)

/-- Every failure of the file system is ruled out, and what is encoded can be decoded. -/
structure Faithful (codec : Codec E A) (io : Io) (builder : EntityStoreBuilder) : Prop where
  io : ∀ operation, io operation = none
  entities : ∀ entity bytes, codec.toBytes entity = .ok bytes → codec.fromBytes bytes = .ok entity
  json : ∃ indexContents contents, codec.indexJson builder.index = .ok indexContents ∧
    codec.parseIndex indexContents = .ok builder.index ∧
    codec.checksumsJson ⟨entitySchemaVersion, codec.hash builder.written, builder.written.length,
      codec.hash indexContents, indexContents.length⟩ = .ok contents ∧
    codec.parseChecksums contents = .ok ⟨entitySchemaVersion, codec.hash builder.written,
      builder.written.length, codec.hash indexContents, indexContents.length⟩

/-- A store gives back what was added. -/
structure RoundTrip (codec : Codec E A) (adds : List (String × E)) (store : EntityStore) :
    Prop where
  ids : ∀ id, contains store id = true ↔ ∃ entity, (id, entity) ∈ adds
  get : ∀ id, getInternal codec store id = some (.ok (lastAdd adds id))
  inside : ∀ id place, store.index id = some place →
    place.1.toNat + place.2.toNat ≤ store.dataMap.bytes.length
  apart : ∀ id other a b, id ≠ other → store.index id = some a → store.index other = some b →
    Apart a b

/-- A store of any contents and with any index answers, with an error where the index points
outside the file. -/
structure Bounded (codec : Codec E A) : Prop where
  answers : ∀ store id, getInternal codec store id ≠ none ∧ getArchived codec store id ≠ none
  outside : ∀ store id place, store.index id = some place →
    store.dataMap.bytes.length < place.1.toNat + place.2.toNat →
    getInternal codec store id =
        some (.error (.serverError ("Entity store index out of bounds for " ++ id))) ∧
      getArchived codec store id =
        some (.error (.serverError ("Entity store index out of bounds for " ++ id)))

theorem codec_bounded (codec : Codec E A) : Bounded codec where
  answers := by
    intro store id
    obtain ⟨found, hfound⟩ := Option.isSome_iff_exists.mp (recordBytes_isSome store id)
    unfold getInternal getArchived getWith
    rw [hfound]
    exact ⟨Option.some_ne_none _, Option.some_ne_none _⟩
  outside := by
    intro store id place hplace hout
    unfold getInternal getArchived getWith
    rw [recordBytes_outside hplace hout]
    exact ⟨rfl, rfl⟩

theorem Built.roundTrip {codec : Codec E A} {adds : List (String × E)}
    {builder : EntityStoreBuilder} {store : EntityStore} (h : Built codec adds builder)
    (hindex : store.index = builder.index) (hbytes : store.dataMap.bytes = builder.written)
    (hdecode : ∀ entity bytes, codec.toBytes entity = .ok bytes →
      codec.fromBytes bytes = .ok entity) : RoundTrip codec adds store := by
  have habsent : ∀ id, lastAdd adds id = none → store.index id = none :=
    fun id hlast => hindex ▸ h.absent id hlast
  have hholds : ∀ id entity, lastAdd adds id = some entity → ∃ place,
      store.index id = some place ∧ Holds codec store.dataMap.bytes place entity := by
    rw [hindex, hbytes]
    exact h.holds
  refine ⟨fun id => ?_, fun id => ?_, fun id place hplace => ?_, hindex ▸ h.apart⟩
  · unfold contains
    rw [← not_iff_not, not_exists, ← lastAdd_eq_none, Bool.not_eq_true, Option.isSome_eq_false_iff,
      Option.isNone_iff_eq_none]
    refine ⟨fun hnone => ?_, habsent id⟩
    by_contra hlast
    obtain ⟨entity, hentity⟩ := Option.ne_none_iff_exists'.mp hlast
    obtain ⟨place, hplace, -⟩ := hholds id entity hentity
    rw [hplace] at hnone
    cases hnone
  · cases hlast : lastAdd adds id with
    | none =>
        unfold getInternal getWith
        rw [recordBytes_absent (habsent id hlast)]
        rfl
    | some entity =>
        obtain ⟨place, hplace, hholds⟩ := hholds id entity hlast
        exact getWith_ok (recordBytes_inside hplace hholds.inside)
          (hdecode entity _ hholds.bytes) _
  · cases hlast : lastAdd adds id with
    | none =>
        rw [habsent id hlast] at hplace
        cases hplace
    | some entity =>
        obtain ⟨found, hfound, hinside, -⟩ := hholds id entity hlast
        rw [hplace] at hfound
        exact Option.some.inj hfound ▸ hinside

/-- What was added in any order and under any ids, and as often, is given back by the store that
is opened from its files. -/
theorem store_round_trip (codec : Codec E A) (io : Io) (adds : List (String × E))
    {builder : EntityStoreBuilder} (files : Files)
    (hbuild : build codec io adds = .ok builder)
    (hfaithful : Faithful codec io builder) :
    (∃ after store, finish codec io builder files = .ok (after, store) ∧
      EntityStore.open codec io after = .ok store ∧ RoundTrip codec adds store) ∧
    Bounded codec := by
  have hbuilt := build_built hbuild
  obtain ⟨indexContents, contents, hindex, hparseIndex, hjson, hparse⟩ := hfaithful.json
  obtain ⟨after, hopen, hfinish⟩ := finish_ok hfaithful.io hbuilt.length_le hindex hparseIndex
    hjson hparse files
  exact ⟨⟨after, _, hfinish, hopen, hbuilt.roundTrip rfl rfl hfaithful.entities⟩,
    codec_bounded codec⟩

end Store

/-- A codec for entities that are their own bytes and for the index of two of them. -/
def twoCodec : Codec Bytes Bytes where
  toBytes := .ok
  fromBytes := .ok
  access := .ok
  indexJson _ := .ok ("\x7b\"a\":[3,1],\"b\":[1,2]\x7d".toList.map fun ch => UInt8.ofNat ch.toNat)
  parseIndex _ := .ok (Function.update (Function.update (Function.update (fun _ => none) "a"
    (some (0, 1))) "b" (some (1, 2))) "a" (some (3, 1)))
  checksumsJson _ := .ok []
  parseChecksums _ := .ok ⟨8, "", 4, "", 21⟩
  hash _ := ""

theorem twoCodec_round_trip : ∃ after store,
    finish twoCodec (fun _ => none) ⟨[1, 2, 3, 4], Function.update (Function.update
      (Function.update (fun _ => none) "a" (some (0, 1))) "b" (some (1, 2))) "a" (some (3, 1)), 4⟩
      (fun _ => none) = .ok (after, store) ∧
    EntityStore.open twoCodec (fun _ => none) after = .ok store ∧
    RoundTrip twoCodec [("a", [1]), ("b", [2, 3]), ("a", [4])] store :=
  (store_round_trip twoCodec (fun _ => none) [("a", [1]), ("b", [2, 3]), ("a", [4])]
    (fun _ => none) rfl
    ⟨fun _ => rfl, fun _ _ h => h.symm, _, _, rfl, rfl, rfl, rfl⟩).1

end DbtNova.EntityFiles
