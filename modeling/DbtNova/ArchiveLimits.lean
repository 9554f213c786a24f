import DbtNova.Materialize

/-!
# The limits of an extraction

The loop of `extract_tar_gz` with what an archive declares and what it holds apart: the size in
the header of an entry is charged to the budget, and the size after extended headers is what
unpacking the entry writes. A limit of zero is none.
-/
namespace DbtNova.ArchiveLimits
open UnixPath FileTree StorageRoot Materialize
open BoundedCollect (saturatingAdd)

structure TarEntry where
  path : Result String
  kind : EntryKind
  /-- `header().size()` -/
  headerSize : Result ℕ
  /-- What unpacking writes, of the length that extended headers leave. -/
  bytes : Bytes := []

/-- `written` lists where the entries were unpacked and how many bytes each took. -/
structure Extraction where
  progress : Progress := {}
  files : Files
  written : List (List Name × ℕ) := []

def TarEntry.writes (entry : TarEntry) : ℕ := if entry.kind = .file then entry.bytes.length else 0

def admitCount (limits : ArtifactArchiveLimits) (entryCount : ℕ) : Result Unit :=
  if 0 < limits.maxEntries ∧ limits.maxEntries < entryCount then
    .error (.serverError ("archive contains too many entries (" ++ toString entryCount ++ " > " ++
      toString limits.maxEntries ++ ")"))
  else .ok ()

def admitKind (entry : TarEntry) (path : String) : Result Unit :=
  if entry.kind = .other then
    .error (.serverError ("archive contains unsupported entry type for path: " ++ path))
  else .ok ()

/-- The running size with the entry counted, from its header. -/
def chargeHeader (limits : ArtifactArchiveLimits) (uncompressedBytes : ℕ) (entry : TarEntry) :
    Result ℕ :=
  if entry.kind = .file then do
    let entrySize ← entry.headerSize
    let uncompressedBytes := saturatingAdd uncompressedBytes entrySize
    if 0 < limits.maxUncompressedBytes ∧ limits.maxUncompressedBytes < uncompressedBytes then
      .error (.serverError ("archive exceeds decompressed size limit (" ++
        toString uncompressedBytes ++ " > " ++ toString limits.maxUncompressedBytes ++ ")"))
    else .ok uncompressedBytes
  else .ok uncompressedBytes

def extractEntry (limits : ArtifactArchiveLimits) (outputRoot : List Name) (s : Extraction)
    (read : Result TarEntry) : Result Extraction := do
  let entry ← read
  let entryCount := saturatingAdd s.progress.entryCount 1
  admitCount limits entryCount
  let path ← entry.path
  validateArchiveEntryPath path
  admitKind entry path
  let names := (pathOf path).names
  let files ← io (createDirAll s.files (outputRoot ++ names.dropLast))
  let uncompressedBytes ← chargeHeader limits s.progress.uncompressedBytes entry
  let files ← unpack files (outputRoot ++ names) ⟨path, entry.kind, entry.bytes⟩
  return ⟨⟨entryCount, uncompressedBytes⟩, files,
    s.written ++ [(outputRoot ++ names, entry.writes)]⟩

/-- The archive is what opening and reading it yields. -/
def extractTarGz (limits : ArtifactArchiveLimits) (archive : Result (List (Result TarEntry)))
    (outputRoot : List Name) (files : Files) : Result Extraction := do
  let entries ← archive
  entries.foldlM (extractEntry limits outputRoot) { files := files }

/-! ## One entry -/

def Within (limit n : ℕ) : Prop := limit = 0 ∨ n ≤ limit

instance (limit n : ℕ) : Decidable (Within limit n) := inferInstanceAs (Decidable (_ ∨ _))

theorem Within.mono {limit m n : ℕ} (h : Within limit n) (hle : m ≤ n) : Within limit m := by
  unfold Within at *
  omega

/-- As a `u64` holds it. -/
def saturate (n : ℕ) : ℕ := min n (2 ^ 64 - 1)

theorem saturate_mono {m n : ℕ} (h : m ≤ n) : saturate m ≤ saturate n := by
  unfold saturate
  omega

theorem saturatingAdd_saturate (m n : ℕ) : saturatingAdd (saturate m) n = saturate (m + n) := by
  unfold saturatingAdd saturate
  omega

/-- What the header of the entry charges to the budget. -/
def TarEntry.charge (entry : TarEntry) : ℕ :=
  if entry.kind = .file then entry.headerSize.toOption.getD 0 else 0

def TarEntry.names (entry : TarEntry) : List Name :=
  (entry.path.toOption.map fun path => (pathOf path).names).getD []

/-- Relative, and without a step up. -/
def TarEntry.Safe (entry : TarEntry) : Prop :=
  ∃ path, entry.path = .ok path ∧ (pathOf path).isAbsolute = false ∧ .parent ∉ (pathOf path).steps

/-- The entry can be unpacked below the directory, limits aside. -/
structure Places (root : List Name) (entry : TarEntry) (files after : Files) : Prop where
  safe : entry.Safe
  kind : entry.kind ≠ .other
  header : entry.kind = .file → ∃ size, entry.headerSize = .ok size
  put : ∃ parents, createDirAll files (root ++ entry.names.dropLast) = .ok parents ∧
    ∀ path, unpack parents (root ++ entry.names) ⟨path, entry.kind, entry.bytes⟩ = .ok after

theorem validateArchiveEntryPath_ok {path : String} :
    validateArchiveEntryPath path = .ok () ↔
      (pathOf path).isAbsolute = false ∧ .parent ∉ (pathOf path).steps := by
  unfold validateArchiveEntryPath
  split_ifs with habsolute hparent
  · simp [habsolute]
  · simp [hparent]
  · simp [habsolute, hparent]

theorem admitCount_ok {limits : ArtifactArchiveLimits} {entryCount : ℕ} :
    admitCount limits entryCount = .ok () ↔ Within limits.maxEntries entryCount := by
  unfold admitCount Within
  split_ifs with h
  · simp only [false_iff]
    omega
  · simp only [true_iff]
    omega

theorem admitKind_ok {entry : TarEntry} {path : String} :
    admitKind entry path = .ok () ↔ entry.kind ≠ .other := by
  unfold admitKind
  split_ifs with h <;> simp [h]

section Step
variable {limits : ArtifactArchiveLimits} {root : List Name} {entry : TarEntry}
  {files : Files} {count bytes : ℕ}

theorem chargeHeader_ok (hbytes : Within limits.maxUncompressedBytes (saturate bytes))
    {charged : ℕ} :
    chargeHeader limits (saturate bytes) entry = .ok charged ↔
      (entry.kind = .file → ∃ size, entry.headerSize = .ok size) ∧
      Within limits.maxUncompressedBytes (saturate (bytes + entry.charge)) ∧
      charged = saturate (bytes + entry.charge) := by
  unfold chargeHeader TarEntry.charge
  by_cases hkind : entry.kind = .file
  · rw [if_pos hkind, if_pos hkind]
    cases hsize : entry.headerSize with
    | error error => simp [bind, Except.bind, hkind]
    | ok size =>
        simp only [bind, Except.bind, saturatingAdd_saturate, Except.toOption, Option.getD_some]
        unfold Within
        split_ifs with hover
        · simp only [false_iff, not_and]
          omega
        · simp only [Except.ok.injEq, exists_eq', implies_true, true_and, eq_comm (a := charged)]
          constructor
          · intro h
            exact ⟨by omega, h⟩
          · exact And.right
  · simp [hkind, hbytes, eq_comm]

/-- The totals so far, as the loop holds them. -/
def totals (count bytes : ℕ) : Progress := ⟨saturate count, saturate bytes⟩

/-- A step succeeds when the entry can be unpacked and the limits hold with it counted. -/
theorem extractEntry_eq_ok (hbytes : Within limits.maxUncompressedBytes (saturate bytes))
    {written : List (List Name × ℕ)} {read : Result TarEntry} {next : Extraction} :
    extractEntry limits root ⟨totals count bytes, files, written⟩ read = .ok next ↔
      ∃ entry after, read = .ok entry ∧ Places root entry files after ∧
        Within limits.maxEntries (saturate (count + 1)) ∧
        Within limits.maxUncompressedBytes (saturate (bytes + entry.charge)) ∧
        next = ⟨totals (count + 1) (bytes + entry.charge), after,
          written ++ [(root ++ entry.names, entry.writes)]⟩ := by
  unfold extractEntry
  simp only [bind_eq_ok, totals, saturatingAdd_saturate, io_eq_ok, chargeHeader_ok hbytes]
  constructor
  · rintro ⟨entry, hread, ⟨⟩, hcount, path, hpath, ⟨⟩, hsafe, ⟨⟩, hkind, parents, hparents,
      charged, ⟨hheader, hwithin, rfl⟩, after, hafter, hnext⟩
    have hnames : entry.names = (pathOf path).names := by
      simp [TarEntry.names, hpath, Except.toOption]
    rw [← hnames] at hparents hafter hnext
    exact ⟨entry, after, hread,
      ⟨⟨path, hpath, validateArchiveEntryPath_ok.mp hsafe⟩, admitKind_ok.mp hkind, hheader,
        parents, hparents, fun _ => hafter⟩,
      admitCount_ok.mp hcount, hwithin, (Except.ok.inj hnext).symm⟩
  · rintro ⟨entry, after, hread, hplaces, hcount, hwithin, rfl⟩
    obtain ⟨path, hpath, hsafe⟩ := hplaces.safe
    obtain ⟨parents, hparents, hafter⟩ := hplaces.put
    have hnames : entry.names = (pathOf path).names := by
      simp [TarEntry.names, hpath, Except.toOption]
    rw [hnames] at hparents hafter
    exact ⟨entry, hread, ⟨⟩, admitCount_ok.mpr hcount, path, hpath, ⟨⟩,
      validateArchiveEntryPath_ok.mpr hsafe, ⟨⟩, admitKind_ok.mpr hplaces.kind, parents, hparents,
      _, ⟨hplaces.header, hwithin, rfl⟩, after, hafter path, by rw [hnames]; rfl⟩

end Step

/-! ## The whole archive -/

/-- The entries can be unpacked one after another. -/
def PlacesAll (root : List Name) : List TarEntry → Files → Files → Prop
  | [], files, after => after = files
  | entry :: entries, files, after =>
      ∃ between, Places root entry files between ∧ PlacesAll root entries between after

def headerBytes (entries : List TarEntry) : ℕ := (entries.map TarEntry.charge).sum

def unpackedBytes (entries : List TarEntry) : ℕ := (entries.map TarEntry.writes).sum

/-- What stands below the directory, as a tree of its own. -/
def below (root : List Name) (files : Files) : Files :=
  files.filterMap fun entry =>
    if root <+: entry.1 then some (entry.1.drop root.length, entry.2) else none

theorem node_below (root : List Name) (files : Files) (rest : List Name) :
    node (below root files) rest = node files (root ++ rest) := by
  induction files with
  | nil => rfl
  | cons entry files ih =>
      obtain ⟨key, value⟩ := entry
      unfold below at ih ⊢
      by_cases hkey : root <+: key
      · obtain ⟨tail, rfl⟩ := hkey
        simp [node, ih]
      · have hne : key ≠ root ++ rest := fun heq => hkey (heq ▸ List.prefix_append root rest)
        simp [node, ih, hkey, hne]

theorem exists_mirrors {root : List Name} {files : Files}
    (hroot : ∀ q, q <+: root → node files q = some .dir) : ∃ s, Mirrors root files s :=
  ⟨below root files, fun rest => (node_below root files rest).symm, hroot⟩

section Run
variable {limits : ArtifactArchiveLimits} {root : List Name}

/-- A run succeeds when every entry can be unpacked and the limits hold with all counted. -/
theorem foldlM_extractEntry_eq_ok {reads : List (Result TarEntry)} {files : Files}
    {count bytes : ℕ} (hcount : Within limits.maxEntries (saturate count))
    (hbytes : Within limits.maxUncompressedBytes (saturate bytes))
    {written : List (List Name × ℕ)} {last : Extraction} :
    reads.foldlM (extractEntry limits root) ⟨totals count bytes, files, written⟩ = .ok last ↔
      ∃ entries after, reads = entries.map .ok ∧ PlacesAll root entries files after ∧
        Within limits.maxEntries (saturate (count + entries.length)) ∧
        Within limits.maxUncompressedBytes (saturate (bytes + headerBytes entries)) ∧
        last = ⟨totals (count + entries.length) (bytes + headerBytes entries), after,
          written ++ entries.map fun entry => (root ++ entry.names, entry.writes)⟩ := by
  induction reads generalizing files count bytes written with
  | nil =>
      constructor
      · intro h
        obtain rfl := Except.ok.inj h
        exact ⟨[], files, rfl, rfl, hcount, hbytes, by simp [headerBytes]⟩
      · rintro ⟨entries, after, hreads, hplaces, -, -, rfl⟩
        obtain rfl := List.map_eq_nil_iff.mp hreads.symm
        obtain rfl : after = files := hplaces
        simp [headerBytes]
        rfl
  | cons read reads ih =>
      rw [List.foldlM_cons, bind_eq_ok]
      constructor
      · rintro ⟨next, hnext, h⟩
        obtain ⟨entry, between, rfl, hplace, hcount', hbytes', rfl⟩ :=
          (extractEntry_eq_ok hbytes).mp hnext
        obtain ⟨entries, after, rfl, hplaces, hlength, htotal, rfl⟩ := (ih hcount' hbytes').mp h
        have hsum : headerBytes (entry :: entries) = entry.charge + headerBytes entries := rfl
        refine ⟨entry :: entries, after, rfl, ⟨between, hplace, hplaces⟩, ?_⟩
        rw [hsum, List.length_cons, ← add_assoc, ← add_assoc, add_right_comm count]
        exact ⟨hlength, htotal, by simp⟩
      · rintro ⟨entries, after, hreads, hplaces, hlength, htotal, hlast⟩
        cases entries with
        | nil => contradiction
        | cons entry entries =>
            obtain ⟨rfl, rfl⟩ := List.cons.inj hreads
            obtain ⟨between, hplace, hplaces⟩ := hplaces
            have hsum : headerBytes (entry :: entries) = entry.charge + headerBytes entries := rfl
            have hmany : count + (entry :: entries).length = count + 1 + entries.length := by
              rw [List.length_cons, ← add_assoc, add_right_comm]
            rw [hmany] at hlength hlast
            rw [hsum, ← add_assoc] at htotal hlast
            have hcount' := hlength.mono
              (saturate_mono (Nat.le_add_right (count + 1) entries.length))
            have hbytes' := htotal.mono
              (saturate_mono (Nat.le_add_right (bytes + entry.charge) (headerBytes entries)))
            refine ⟨_, (extractEntry_eq_ok hbytes).mpr
              ⟨entry, between, rfl, hplace, hcount', hbytes', rfl⟩, ?_⟩
            refine (ih hcount' hbytes').mpr ⟨entries, after, rfl, hplaces, hlength, htotal, ?_⟩
            rw [hlast, List.map_cons, List.append_assoc, List.singleton_append]

theorem extractTarGz_eq_ok {archive : Result (List (Result TarEntry))} {files : Files}
    {last : Extraction} :
    extractTarGz limits archive root files = .ok last ↔
      ∃ entries after, archive = .ok (entries.map .ok) ∧ PlacesAll root entries files after ∧
        Within limits.maxEntries (saturate entries.length) ∧
        Within limits.maxUncompressedBytes (saturate (headerBytes entries)) ∧
        last = ⟨totals entries.length (headerBytes entries), after,
          entries.map fun entry => (root ++ entry.names, entry.writes)⟩ := by
  have hzero : ∀ limit, Within limit (saturate 0) := fun limit => .inr (Nat.zero_le limit)
  unfold extractTarGz
  rw [bind_eq_ok]
  constructor
  · rintro ⟨reads, rfl, h⟩
    obtain ⟨entries, after, rfl, hplaces, hlength, htotal, rfl⟩ :=
      (foldlM_extractEntry_eq_ok (hzero _) (hzero _)).mp h
    rw [Nat.zero_add] at hlength htotal
    exact ⟨entries, after, rfl, hplaces, hlength, htotal, by simp⟩
  · rintro ⟨entries, after, rfl, hplaces, hlength, htotal, rfl⟩
    refine ⟨_, rfl, (foldlM_extractEntry_eq_ok (hzero _) (hzero _)).mpr ?_⟩
    exact ⟨entries, after, rfl, hplaces, by rwa [Nat.zero_add], by rwa [Nat.zero_add], by simp⟩

/-- Unpacking the entries changes nothing outside the directory. -/
theorem PlacesAll.sameOutside {entries : List TarEntry} {files after : Files}
    (h : PlacesAll root entries files after) (hroot : ∀ q, q <+: root → node files q = some .dir) :
    SameOutside root files after := by
  obtain ⟨s, hmirror⟩ := exists_mirrors hroot
  induction entries generalizing files s with
  | nil =>
      obtain rfl : after = files := h
      exact fun _ _ => rfl
  | cons entry entries ih =>
      obtain ⟨between, hplace, hplaces⟩ := h
      obtain ⟨parents, hparents, hput⟩ := hplace.put
      obtain ⟨s₁, -, hmirror₁, hsame₁⟩ := hmirror.createDirAll hparents
      obtain ⟨s₂, -, hmirror₂, hsame₂⟩ := unpack_mirrors hmirror₁ (hput "")
      exact (hsame₁.trans hsame₂).trans (ih hplaces hmirror₂.above s₂ hmirror₂)

end Run

/-! ## Staying within the limits -/

/-- An archive that may be extracted, by the sizes that its entries unpack to. -/
def Acceptable (limits : ArtifactArchiveLimits) (archive : Result (List (Result TarEntry))) :
    Prop :=
  ∃ entries, archive = .ok (entries.map .ok) ∧
    (∀ entry ∈ entries, entry.Safe ∧ entry.kind ≠ .other) ∧
    Within limits.maxEntries entries.length ∧
    Within limits.maxUncompressedBytes (unpackedBytes entries)

structure Bounded (limits : ArtifactArchiveLimits) (root : List Name)
    (archive : Result (List (Result TarEntry))) (files : Files) : Prop where
  within : ∀ last, extractTarGz limits archive root files = .ok last →
    Within limits.maxUncompressedBytes (last.written.map Prod.snd).sum ∧
      Within limits.maxEntries last.written.length
  under : ∀ last, extractTarGz limits archive root files = .ok last →
    (∀ place ∈ last.written, root <+: place.1) ∧ SameOutside root files last.files
  refuses : ¬ Acceptable limits archive →
    ∃ error, extractTarGz limits archive root files = .error error

/-- When the archive can be unpacked and its headers are within the limits, so is what it
unpacks to. The counters end at `2 ^ 64 - 1`. -/
def HeadersSuffice (limits : ArtifactArchiveLimits) (root : List Name)
    (archive : Result (List (Result TarEntry))) (files : Files) : Prop :=
  ∀ entries after, archive = .ok (entries.map .ok) → PlacesAll root entries files after →
    Within limits.maxEntries (saturate entries.length) →
    Within limits.maxUncompressedBytes (saturate (headerBytes entries)) →
    Within limits.maxEntries entries.length ∧
      Within limits.maxUncompressedBytes (unpackedBytes entries)

section Bounds
variable {limits : ArtifactArchiveLimits} {root : List Name} {files after : Files}
  {archive : Result (List (Result TarEntry))} {entries : List TarEntry}

theorem PlacesAll.admissible (h : PlacesAll root entries files after) :
    ∀ entry ∈ entries, entry.Safe ∧ entry.kind ≠ .other := by
  induction entries generalizing files with
  | nil => simp
  | cons entry entries ih =>
      obtain ⟨between, hplace, hplaces⟩ := h
      rw [List.forall_mem_cons]
      exact ⟨⟨hplace.safe, hplace.kind⟩, ih hplaces⟩

/-- Headers that say what the entries unpack to suffice. -/
theorem headersSuffice_of_sizes (hcount : entries.length < 2 ^ 64)
    (hbytes : headerBytes entries < 2 ^ 64)
    (hsizes : ∀ entry ∈ entries, entry.charge = entry.writes) :
    HeadersSuffice limits root (.ok (entries.map .ok)) files := by
  intro others after hsame _ hlength htotal
  have hmap : others = entries := by
    have hinj : Function.Injective (Except.ok : TarEntry → Result TarEntry) :=
      fun _ _ => Except.ok.inj
    exact (List.map_injective_iff.mpr hinj (Except.ok.inj hsame)).symm
  subst hmap
  have hsum : headerBytes others = unpackedBytes others :=
    congrArg List.sum (List.map_congr_left hsizes)
  unfold saturate at hlength htotal
  rw [← hsum]
  constructor
  · exact hlength.mono (by omega)
  · exact htotal.mono (by omega)

/-- An extraction stays within its limits exactly when the headers of the archive suffice. That
it stays below its directory needs nothing. -/
theorem extraction_bounded_iff (limits : ArtifactArchiveLimits)
    (archive : Result (List (Result TarEntry)))
    (hroot : ∀ q, q <+: root → node files q = some .dir) :
    Bounded limits root archive files ↔ HeadersSuffice limits root archive files := by
  have hwritten : ∀ entries : List TarEntry,
      ((entries.map fun entry => (root ++ entry.names, entry.writes)).map Prod.snd).sum =
        unpackedBytes entries := by
    intro entries
    rw [List.map_map]
    rfl
  constructor
  · intro h entries after harchive hplaces hlength htotal
    obtain ⟨hbytes, hentries⟩ := h.within _ (extractTarGz_eq_ok.mpr
      ⟨entries, after, harchive, hplaces, hlength, htotal, rfl⟩)
    rw [hwritten] at hbytes
    rw [List.length_map] at hentries
    exact ⟨hentries, hbytes⟩
  · intro h
    refine ⟨?_, ?_, ?_⟩
    · intro last hlast
      obtain ⟨entries, after, harchive, hplaces, hlength, htotal, rfl⟩ :=
        extractTarGz_eq_ok.mp hlast
      obtain ⟨hentries, hbytes⟩ := h entries after harchive hplaces hlength htotal
      rw [hwritten, List.length_map]
      exact ⟨hbytes, hentries⟩
    · intro last hlast
      obtain ⟨entries, after, -, hplaces, -, -, rfl⟩ := extractTarGz_eq_ok.mp hlast
      refine ⟨?_, hplaces.sameOutside hroot⟩
      intro place hplace
      obtain ⟨entry, -, rfl⟩ := List.mem_map.mp hplace
      exact List.prefix_append root entry.names
    · intro hrefused
      cases hlast : extractTarGz limits archive root files with
      | error error => exact ⟨error, rfl⟩
      | ok last =>
          obtain ⟨entries, after, harchive, hplaces, hlength, htotal, -⟩ :=
            extractTarGz_eq_ok.mp hlast
          obtain ⟨hentries, hbytes⟩ := h entries after harchive hplaces hlength htotal
          exact absurd ⟨entries, harchive, hplaces.admissible, hentries, hbytes⟩ hrefused

end Bounds

/-! ## Two archives -/

def assetsDir : TarEntry := { path := .ok "assets", kind := .dir, headerSize := .ok 0 }

def assetsFile (headerSize : ℕ) : TarEntry :=
  { path := .ok "assets/index.bin", kind := .file, headerSize := .ok headerSize
    bytes := [1, 2, 3] }

theorem extraction_bounded_assets :
    Bounded ⟨2, 3⟩ [] (.ok ([assetsDir, assetsFile 3].map .ok)) [([], .dir)] := by
  refine (extraction_bounded_iff ⟨2, 3⟩ _ ?_).mpr (headersSuffice_of_sizes ?_ ?_ ?_)
  · intro q hq
    rw [List.prefix_nil.mp hq]
    rfl
  · decide
  · decide
  · decide

/-- The header says zero and an extended header three. -/
theorem extended_size_not_charged :
    ¬ Bounded ⟨2, 2⟩ [] (.ok ([assetsDir, assetsFile 0].map .ok)) [([], .dir)] := by
  intro h
  obtain ⟨hbytes, -⟩ := h.within _ rfl
  revert hbytes
  decide

/-! ## Archives whose headers say what they hold -/

def ofArchiveEntry (entry : ArchiveEntry) : TarEntry where
  path := .ok entry.path
  kind := entry.kind
  headerSize := .ok entry.bytes.length
  bytes := entry.bytes

section Honest
variable {limits : ArtifactArchiveLimits} {root : List Name}

theorem admitEntry_eq (entryCount : ℕ) (entry : ArchiveEntry) :
    admitEntry limits entryCount entry = (do
      admitCount limits entryCount
      validateArchiveEntryPath entry.path
      admitKind (ofArchiveEntry entry) entry.path) := by
  unfold admitEntry admitCount admitKind ofArchiveEntry
  split_ifs <;> rfl

theorem admitBytes_eq (uncompressedBytes : ℕ) (entry : ArchiveEntry) :
    admitBytes limits uncompressedBytes entry =
      chargeHeader limits uncompressedBytes (ofArchiveEntry entry) := by
  unfold admitBytes chargeHeader ofArchiveEntry
  split_ifs <;> rfl

theorem map_bind_result {α β γ : Type} (x : Result α) (f : α → Result β) (g : β → γ) :
    (x >>= f).map g = x >>= fun a => (f a).map g := by
  cases x <;> rfl

/-- The extraction of an archive whose headers are right, with its record of what was written. -/
theorem extractEntries_eq (entries : List (Result ArchiveEntry)) (progress : Progress)
    (files : Files) (written : List (List Name × ℕ)) :
    extractEntries limits root entries progress files =
      ((entries.map (·.map ofArchiveEntry)).foldlM (extractEntry limits root)
        ⟨progress, files, written⟩).map Extraction.files := by
  induction entries generalizing progress files written with
  | nil => rfl
  | cons read entries ih =>
      rw [List.map_cons, List.foldlM_cons, extractEntries, extractEntry]
      cases read with
      | error error => rfl
      | ok entry =>
          have hok : (Except.ok entry : Result ArchiveEntry) = pure entry := rfl
          simp only [admitEntry_eq, admitBytes_eq, hok, pure_bind, map_bind_result, bind_assoc,
            ih _ _ (written ++ [(root ++ (pathOf entry.path).names, (ofArchiveEntry entry).writes)])]
          rfl

end Honest

end DbtNova.ArchiveLimits
