import Jumpstarter.Lib.Slice

/-!
# Flashing partitions (`RideSXClient.flash_images`)

The client first puts every source into the exporter's storage under its base name
(`_upload_file_if_needed`), and leaves out an upload if the storage has a file of that name with the
same SHA-256 hash. Then the driver goes through the partitions in the same order
(`flash_with_fastboot`): it decompresses a file with a compressed suffix to a file beside it
(`_decompress_file`) and passes that file to `fastboot`, or else the file itself. The commands are inputs:
what they write, and how they fail.

- `uploadAll_spec`: after the uploads, the storage holds under each name the last source of that name.
- `flashAll_own`: what `fastboot` gets for a partition is made from that source, or from what an earlier
  partition's image was decompressed to under that name.
- `ownImages_iff`: so each partition gets the image of its own source if and only if the file that is there
  under its name gives the same image.
-/

namespace Jumpstarter.RideSX

open List Option

abbrev Content := List UInt8

/-- The files in the exporter's storage directory. -/
abbrev Storage := String → Option Content

/-! ## File names -/

/-- `Path(path).name`. -/
def pathName (path : List Char) : String :=
  let parts := (path.splitOn '/').filter fun part => part ≠ [] ∧ part ≠ ['.']
  String.ofList (parts.getLast?.getD [])

/-- `clean_filename`, of a `Path`. -/
def cleanFilename (path : String) : String := pathName (path.toList.takeWhile (· ≠ '?'))

def endsWith (name suffix : String) : Bool := suffix.toList.isSuffixOf name.toList

/-- `name[:-n]`. -/
def dropEnd (name : String) (n : Nat) : String :=
  String.ofList (name.toList.take (name.toList.length - n))

def namesDirectory (name : String) : Bool := name = "" ∨ name = "." ∨ name = ".."

def needsDecompression (filename : String) : Bool :=
  endsWith filename ".gz" || endsWith filename ".gzip" || endsWith filename ".xz"

inductive Command where
  | zcat | xzcat | cat
  deriving DecidableEq

def getDecompressionCommand (filename : String) : Command :=
  if endsWith filename ".gz" || endsWith filename ".gzip" then .zcat
  else if endsWith filename ".xz" then .xzcat
  else .cat

/-- The name that `_decompress_file` writes to, unless it returns its argument. -/
def decompressedName (filename : String) : Option String :=
  if endsWith filename ".xz" then some (dropEnd filename 3)
  else if endsWith filename ".gz" then some (dropEnd filename 3)
  else if endsWith filename ".gzip" then some (dropEnd filename 5)
  else none

theorem isSome_decompressedName (filename : String) :
    (decompressedName filename).isSome = needsDecompression filename := by
  unfold decompressedName needsDecompression
  by_cases hxz : endsWith filename ".xz" = true
  · simp [hxz]
  · by_cases hgz : endsWith filename ".gz" = true
    · simp [hxz, hgz]
    · by_cases hgzip : endsWith filename ".gzip" = true <;> simp [hxz, hgz, hgzip]

/-! ## The exporter -/

/-- How a command fails: with a return code (the text of the exception), or at its timeout. -/
inductive Failure where
  | failed (e : String)
  | timedOut

/-- The exporter that `flash_images` meets. -/
structure Exporter where
  storage : Storage
  sha256 : Content → String
  /-- What `detect_fastboot_device` returns. -/
  device : Option String
  decompress : Command → Content → Except Failure Content
  /-- How `fastboot flash` of a partition fails. -/
  flash : String → Option Failure
  /-- How `fastboot continue` fails. -/
  resume : Option Failure

/-- `_decompress_file`: the name of the file it returns, and the storage. The content of the compressed
file is given. -/
def decompressFile (x : Exporter) (storage : Storage) (name : String) (content : Content) :
    Except String (String × Storage) :=
  match decompressedName name with
  | none => .ok (name, storage)
  | some out =>
    if namesDirectory out then .error "Is a directory"
    else
      match x.decompress (getDecompressionCommand name) content with
      | .error (.failed e) => .error ("failed to decompress " ++ name ++ ": " ++ e)
      | .error .timedOut => .error ("decompression timeout for " ++ name)
      | .ok written =>
        if written = [] then .error "decompression failed: output file is missing or empty"
        else .ok (out, Function.update storage out (some written))

/-- The file that is passed to `fastboot`, and the storage then. -/
def imageFile (x : Exporter) (storage : Storage) (filename : String) :
    Except String (String × Storage) :=
  match storage filename with
  | none => .error ("Image not found in storage: " ++ filename)
  | some content =>
    if needsDecompression filename then decompressFile x storage filename content
    else .ok (filename, storage)

/-- The loop of `flash_with_fastboot`: for each partition the content of the file that `fastboot` gets. -/
def flashAll (x : Exporter) :
    Storage → List (String × String) → Except String (List (String × Content))
  | _, [] => .ok []
  | storage, (partition, filename) :: rest =>
    match imageFile x storage filename with
    | .error e => .error e
    | .ok (file, storage) =>
      match x.flash partition with
      | some (.failed e) => .error ("Failed to flash " ++ partition ++ ": " ++ e)
      | some .timedOut => .error ("timeout while flashing " ++ partition)
      | none =>
        match flashAll x storage rest with
        | .error e => .error e
        | .ok images => .ok ((partition, (storage file).getD []) :: images)

def flashWithFastboot (x : Exporter) (storage : Storage) (partitions : List (String × String)) :
    Except String (List (String × Content)) :=
  if partitions = [] then .error "At least one partition must be provided"
  else
    match flashAll x storage partitions with
    | .error e => .error e
    | .ok images =>
      match x.resume with
      | some .timedOut => .error "fastboot continue timed out"
      | _ => .ok images

/-! ## The client -/

/-- The scheme of the operator that reads a source: that of `operator_for_path`, or `unknown` for an
operator of the caller. -/
inductive Scheme where
  | fs | http | unknown
  deriving DecidableEq

def Scheme.text : Scheme → String
  | .fs => "fs"
  | .http => "http"
  | .unknown => "unknown"

structure Source where
  partition : String
  filePath : String
  scheme : Scheme
  /-- The path at the operator: `str(path_buf)`. -/
  path : String
  content : Content
  hashes : Bool := true
  transfers : Bool := true

def Source.filename (s : Source) : String := cleanFilename s.path

def shouldUploadFile (x : Exporter) (storage : Storage) (s : Source) : Bool :=
  match storage s.filename with
  | none => true
  | some stored =>
    if s.scheme ≠ .fs then true
    else if s.hashes then x.sha256 stored ≠ x.sha256 s.content
    else true

/-- `_upload_file_if_needed`: the name in the storage, and the storage. -/
def uploadFileIfNeeded (x : Exporter) (storage : Storage) (s : Source) :
    Except String (String × Storage) :=
  if s.filePath.toList.all Char.isWhitespace then
    .error "File path cannot be empty. Please provide a valid file path."
  else if shouldUploadFile x storage s then
    if s.transfers ∧ namesDirectory s.filename = false then
      .ok (s.filename, Function.update storage s.filename (some s.content))
    else
      .error ("Failed to transfer '" ++ s.filePath ++ "' to exporter storage as '" ++ s.filename ++
        "' (scheme=" ++ s.scheme.text ++ ")")
  else .ok (s.filename, storage)

/-- The first loop of `flash_images`: `remote_files`, and the storage. -/
def uploadAll (x : Exporter) :
    Storage → List Source → Except String (List (String × String) × Storage)
  | storage, [] => .ok ([], storage)
  | storage, s :: rest =>
    match uploadFileIfNeeded x storage s with
    | .error _ =>
      .error ("Failed preparing image for partition '" ++ s.partition ++ "': " ++ s.filePath)
    | .ok (filename, storage) =>
      match uploadAll x storage rest with
      | .error e => .error e
      | .ok (remoteFiles, storage) => .ok ((s.partition, filename) :: remoteFiles, storage)

/-- `flash_images`, with the mapping as the list of its entries. -/
def flashImages (x : Exporter) (partitions : List Source) : Except String (List (String × Content)) :=
  if partitions = [] then .error "At least one partition must be provided"
  else
    match uploadAll x x.storage partitions with
    | .error e => .error e
    | .ok (remoteFiles, storage) =>
      match x.device with
      | none => .error "No fastboot devices found. Make sure device is in fastboot mode."
      | some _ => flashWithFastboot x storage remoteFiles

/-! ## The images of the sources -/

/-- What is made of a content under a name: it is decompressed if the name has a compressed suffix. -/
def imageOf (x : Exporter) (name : String) (content : Content) : Option Content :=
  if needsDecompression name then (x.decompress (getDecompressionCommand name) content).toOption
  else some content

/-- The name of the source itself. A local file's may have a question mark in it; in a remote path it
begins the query. -/
def Source.ownName (s : Source) : String :=
  if s.scheme = .fs then pathName s.path.toList else s.filename

/-- The image of the source: its content, decompressed if its name says so. -/
def Source.ownImage (x : Exporter) (s : Source) : Option Content := imageOf x s.ownName s.content

/-- Each partition gets the image of its own source. -/
def OwnImages (x : Exporter) (partitions : List Source) (images : List (String × Content)) : Prop :=
  images.map (fun i => (i.1, some i.2)) = partitions.map fun s => (s.partition, s.ownImage x)

/-- SHA-256 tells the sources apart from each other and from the files in the storage. -/
structure HashesApart (x : Exporter) (partitions : List Source) : Prop where
  stored : ∀ s ∈ partitions, ∀ name stored, x.storage name = some stored →
    x.sha256 stored = x.sha256 s.content → stored = s.content
  sources : ∀ s ∈ partitions, ∀ other ∈ partitions,
    x.sha256 other.content = x.sha256 s.content → other.content = s.content

/-! ## The uploads -/

def lastNamed (sources : List Source) (filename : String) : Option Source :=
  sources.reverse.find? fun s => s.filename = filename

theorem lastNamed_concat (sources : List Source) (s : Source) (filename : String) :
    lastNamed (sources ++ [s]) filename =
      if s.filename = filename then some s else lastNamed sources filename := by
  by_cases h : s.filename = filename <;> simp [lastNamed, h]

variable {filename : String} {s : Source}

theorem lastNamed_mem {sources : List Source} (h : lastNamed sources filename = some s) : s ∈ sources :=
  mem_reverse.1 (mem_of_find?_eq_some h)

theorem lastNamed_isSome {sources : List Source} (h : s ∈ sources) :
    (lastNamed sources s.filename).isSome = true := by
  unfold lastNamed
  rw [find?_isSome]
  exact ⟨s, mem_reverse.2 h, by simp⟩

/-- The storage after these sources are put into it. -/
def Staged (x : Exporter) (done : List Source) (storage : Storage) : Prop :=
  ∀ filename, storage filename = ((lastNamed done filename).map Source.content).or (x.storage filename)

variable {x : Exporter} {storage : Storage}

theorem uploadFileIfNeeded_spec {storage' : Storage} (hhash : ∀ stored, storage s.filename = some stored →
      x.sha256 stored = x.sha256 s.content → stored = s.content)
    (h : uploadFileIfNeeded x storage s = .ok (filename, storage')) :
    filename = s.filename ∧ storage' = Function.update storage s.filename (some s.content) := by
  unfold uploadFileIfNeeded at h
  split at h
  · cases h
  · split at h
    · split at h
      · cases h
        exact ⟨rfl, rfl⟩
      · cases h
    · rename_i hskip
      cases h
      refine ⟨rfl, ?_⟩
      unfold shouldUploadFile at hskip
      cases hstored : storage s.filename with
      | none => simp [hstored] at hskip
      | some stored =>
        have heq : stored = s.content := by
          apply hhash stored hstored
          simp only [hstored] at hskip
          by_cases hfs : s.scheme = .fs
          · by_cases hhashes : s.hashes = true
            · simpa [hfs, hhashes] using hskip
            · simp [hfs, hhashes] at hskip
          · simp [hfs] at hskip
        rw [← heq, ← hstored, Function.update_eq_self]

theorem Staged.concat {done : List Source} (h : Staged x done storage) (s : Source) :
    Staged x (done ++ [s]) (Function.update storage s.filename (some s.content)) := by
  intro filename
  rw [lastNamed_concat]
  by_cases heq : s.filename = filename
  · subst heq
    simp
  · rw [Function.update_of_ne (Ne.symm heq), h filename, if_neg heq]

theorem Staged.content {done : List Source} (h : Staged x done storage) {stored : Content}
    (hstored : storage filename = some stored) :
    (∃ s ∈ done, s.content = stored) ∨ x.storage filename = some stored := by
  rw [h filename, or_eq_some_iff, map_eq_some_iff] at hstored
  rcases hstored with ⟨s, hs, hcontent⟩ | ⟨-, hbefore⟩
  · exact .inl ⟨s, lastNamed_mem hs, hcontent⟩
  · exact .inr hbefore

variable {partitions : List Source}

theorem uploadAll_spec (hhash : HashesApart x partitions) :
    ∀ {done rest : List Source} {storage storage' : Storage} {remoteFiles : List (String × String)},
    partitions = done ++ rest → Staged x done storage →
    uploadAll x storage rest = .ok (remoteFiles, storage') →
    remoteFiles = rest.map (fun s => (s.partition, s.filename)) ∧ Staged x partitions storage' := by
  intro done rest
  induction rest generalizing done with
  | nil =>
    intro storage storage' remoteFiles hall hstaged h
    cases h
    rw [hall, append_nil]
    exact ⟨rfl, hstaged⟩
  | cons s rest ih =>
    intro storage storage' remoteFiles hall hstaged h
    have hs : s ∈ partitions := by simp [hall]
    unfold uploadAll at h
    split at h
    · cases h
    · rename_i filename storage₁ hupload
      have hsame : ∀ stored, storage s.filename = some stored →
          x.sha256 stored = x.sha256 s.content → stored = s.content := by
        intro stored hstored hsha
        rcases hstaged.content hstored with ⟨other, hother, rfl⟩ | hbefore
        · exact hhash.sources s hs other (by simp [hall, hother]) hsha
        · exact hhash.stored s hs _ _ hbefore hsha
      obtain ⟨rfl, rfl⟩ := uploadFileIfNeeded_spec hsame hupload
      split at h
      · cases h
      · rename_i remoteFiles' storage₂ hrest
        cases h
        have hnext : partitions = (done ++ [s]) ++ rest := by simp [hall]
        obtain ⟨hfiles, hdone⟩ := ih hnext (hstaged.concat s) hrest
        exact ⟨by rw [hfiles, map_cons], hdone⟩

/-! ## The flash commands -/

def unpack (storage : Storage) (filename : String) (image : Content) : Storage :=
  match decompressedName filename with
  | some out => Function.update storage out (some image)
  | none => storage

theorem imageFile_spec {storage' : Storage} {file : String}
    (h : imageFile x storage filename = .ok (file, storage')) :
    ∃ image, (storage filename).bind (imageOf x filename) = some image ∧
      storage' file = some image ∧ storage' = unpack storage filename image := by
  have hname := isSome_decompressedName filename
  unfold imageFile at h
  split at h
  · cases h
  · rename_i content hcontent
    by_cases hneeds : needsDecompression filename = true
    · rw [if_pos hneeds] at h
      obtain ⟨out, hout⟩ := isSome_iff_exists.1 (hname.trans hneeds)
      simp only [decompressFile, hout] at h
      split at h
      · cases h
      · split at h
        · cases h
        · cases h
        · rename_i written hwritten
          split at h
          · cases h
          · cases h
            refine ⟨written, ?_, Function.update_self _ _ _, ?_⟩
            · simp [hcontent, imageOf, hneeds, hwritten, Except.toOption]
            · simp [unpack, hout]
    · rw [if_neg hneeds] at h
      cases h
      have hout : decompressedName filename = none := by
        rw [← not_isSome_iff_eq_none, hname]
        exact hneeds
      exact ⟨content, by simp [hcontent, imageOf, hneeds], hcontent, by simp [unpack, hout]⟩

theorem flashAll_cons {partition : String} {rest : List (String × String)}
    {images : List (String × Content)} (h : flashAll x storage ((partition, filename) :: rest) = .ok images) :
    ∃ image images', (storage filename).bind (imageOf x filename) = some image ∧
      flashAll x (unpack storage filename image) rest = .ok images' ∧
      images = (partition, image) :: images' := by
  rw [flashAll] at h
  split at h
  · cases h
  · rename_i file storage' hfile
    obtain ⟨image, himage, hstored, hunpack⟩ := imageFile_spec hfile
    split at h
    · cases h
    · cases h
    · split at h
      · cases h
      · rename_i images' hrest
        cases h
        rw [hunpack] at hrest
        exact ⟨image, images', himage, hrest, by rw [hstored, getD_some]⟩

def lastUnpacked (sources : List Source) (filename : String) : Option Source :=
  sources.reverse.find? fun s => decompressedName s.filename = some filename

theorem lastUnpacked_concat (sources : List Source) (s : Source) (filename : String) :
    lastUnpacked (sources ++ [s]) filename =
      if decompressedName s.filename = some filename then some s
      else lastUnpacked sources filename := by
  by_cases h : decompressedName s.filename = some filename <;> simp [lastUnpacked, h]

/-- What is in the storage under the name of a partition's source when its turn comes, after the
partitions `before`: the image of one of them that is decompressed to that name, or else the last of all
the sources of that name. -/
def heldContent (x : Exporter) (partitions before : List Source) (s : Source) : Option Content :=
  match lastUnpacked before s.filename with
  | some other => other.ownImage x
  | none => (lastNamed partitions s.filename).map Source.content

/-- What is held for a partition gives the image of its own source. -/
def HeldOwn (x : Exporter) (partitions before : List Source) (s : Source) : Prop :=
  (heldContent x partitions before s).bind (imageOf x s.filename) = s.ownImage x

/-- The sources do not get in each other's way. -/
def Apart (x : Exporter) (partitions : List Source) : Prop :=
  ∀ before s after, partitions = before ++ s :: after → HeldOwn x partitions before s

/-- The storage after each partition of `before` got the image of its own source. -/
def Flashed (x : Exporter) (staged : Storage) (before : List Source) (storage : Storage) : Prop :=
  ∀ filename, storage filename =
    match lastUnpacked before filename with
    | some other => other.ownImage x
    | none => staged filename

variable {staged : Storage}

theorem Flashed.concat {before : List Source} (h : Flashed x staged before storage) {image : Content}
    (hown : some image = s.ownImage x) :
    Flashed x staged (before ++ [s]) (unpack storage s.filename image) := by
  intro filename
  rw [lastUnpacked_concat]
  unfold unpack
  cases hout : decompressedName s.filename with
  | none => simpa using h filename
  | some out =>
    by_cases heq : out = filename
    · subst heq
      simpa using hown
    · simpa [heq, Ne.symm heq] using h filename

theorem Flashed.held {before : List Source} (h : Flashed x staged before storage)
    (hstaged : Staged x partitions staged) (hs : s ∈ partitions) :
    storage s.filename = heldContent x partitions before s := by
  rw [h s.filename]
  unfold heldContent
  cases lastUnpacked before s.filename with
  | some other => rfl
  | none =>
    obtain ⟨last, hlast⟩ := isSome_iff_exists.1 (lastNamed_isSome hs)
    simp [hstaged s.filename, hlast]

theorem forall_eq_append_cons {α : Type} {P : List α → α → Prop} {a : α} {l : List α} :
    (∀ before b after, a :: l = before ++ b :: after → P before b) ↔
      P [] a ∧ ∀ before b after, l = before ++ b :: after → P (a :: before) b := by
  constructor
  · intro h
    refine ⟨h [] a l rfl, fun before b after hl => ?_⟩
    exact h (a :: before) b after (by rw [hl, cons_append])
  · rintro ⟨hfirst, hrest⟩ before b after hl
    cases before with
    | nil =>
      cases hl
      exact hfirst
    | cons c before =>
      cases hl
      exact hrest before b after rfl

theorem flashAll_own (hstaged : Staged x partitions staged) :
    ∀ {before rest : List Source} {storage : Storage} {images : List (String × Content)},
    partitions = before ++ rest → Flashed x staged before storage →
    flashAll x storage (rest.map fun s => (s.partition, s.filename)) = .ok images →
    (OwnImages x rest images ↔
      ∀ between s after, rest = between ++ s :: after → HeldOwn x partitions (before ++ between) s) := by
  intro before rest
  induction rest generalizing before with
  | nil =>
    intro storage images _ _ h
    cases h
    simp [OwnImages]
  | cons s rest ih =>
    intro storage images hall hflashed h
    have hs : s ∈ partitions := by simp [hall]
    obtain ⟨image, images', himage, hrest, rfl⟩ := flashAll_cons h
    have hown : some image = s.ownImage x ↔ HeldOwn x partitions before s := by
      rw [HeldOwn, ← hflashed.held hstaged hs, himage]
    have hsplit : OwnImages x (s :: rest) ((s.partition, image) :: images') ↔
        some image = s.ownImage x ∧ OwnImages x rest images' := by
      simp [OwnImages]
    rw [hsplit, forall_eq_append_cons, append_nil, hown]
    apply and_congr_right
    intro hheld
    have hnext : partitions = (before ++ [s]) ++ rest := by simp [hall]
    simpa using ih hnext (hflashed.concat (hown.2 hheld)) hrest

theorem flashImages_ok {images : List (String × Content)} (h : flashImages x partitions = .ok images) :
    ∃ remoteFiles storage, uploadAll x x.storage partitions = .ok (remoteFiles, storage) ∧
      flashAll x storage remoteFiles = .ok images := by
  unfold flashImages at h
  split at h
  · cases h
  · split at h
    · cases h
    · rename_i remoteFiles storage hupload
      refine ⟨remoteFiles, storage, hupload, ?_⟩
      split at h
      · cases h
      · unfold flashWithFastboot at h
        split at h
        · cases h
        · split at h
          · cases h
          · rename_i images' hflash
            split at h
            · cases h
            · cases h
              exact hflash

/-- Sources whose names do not meet in the storage, neither as they are nor decompressed, and that keep
their names, do not get in each other's way. -/
theorem apart_of_distinct (hnames : (partitions.map Source.filename).Nodup)
    (hunpacked : ∀ s ∈ partitions, ∀ t ∈ partitions, decompressedName s.filename ≠ some t.filename)
    (hown : ∀ s ∈ partitions, s.ownName = s.filename) : Apart x partitions := by
  intro before s after hall
  have hs : s ∈ partitions := by simp [hall]
  have hnone : lastUnpacked before s.filename = none := by
    unfold lastUnpacked
    rw [find?_eq_none]
    intro t ht
    have hbefore : t ∈ partitions := by simp [hall, mem_reverse.1 ht]
    simpa using hunpacked t hbefore s hs
  have hlast : lastNamed partitions s.filename = some s := by
    obtain ⟨last, hlast⟩ := isSome_iff_exists.1 (lastNamed_isSome hs)
    have hname : last.filename = s.filename := by simpa using find?_some hlast
    rw [hlast, inj_on_of_nodup_map hnames (lastNamed_mem hlast) hs hname]
  simp [HeldOwn, heldContent, hnone, hlast, Source.ownImage, hown s hs]

/-- When `flash_images` succeeds, each partition gets the image of its own source if and only if the
sources do not get in each other's way. -/
theorem ownImages_iff {x : Exporter} {partitions : List Source} {images : List (String × Content)}
    (hhash : HashesApart x partitions) (h : flashImages x partitions = .ok images) :
    OwnImages x partitions images ↔ Apart x partitions := by
  obtain ⟨remoteFiles, storage, hupload, hflash⟩ := flashImages_ok h
  have hempty : Staged x [] x.storage := fun filename => by simp [lastNamed]
  have hall : partitions = [] ++ partitions := rfl
  obtain ⟨hfiles, hstaged⟩ := uploadAll_spec hhash hall hempty hupload
  rw [hfiles] at hflash
  have hnone : Flashed x storage [] storage := fun filename => rfl
  have hown := flashAll_own hstaged hall hnone hflash
  simpa [Apart] using hown

/-- A lab exporter, with an image of an earlier run in its storage. Its decompression commands repeat
the content. -/
def labExporter : Exporter where
  storage := fun name => if name = "rootfs.simg" then some [9] else none
  sha256 := fun content => String.ofList (content.map fun byte => Char.ofNat byte.toNat)
  device := some "a1b2c3"
  decompress := fun _ content => .ok (content ++ content)
  flash := fun _ => none
  resume := none

/-- A compressed image, and one whose name is in the storage. -/
def aboot : Source where
  partition := "boot_a"
  filePath := "build/aboot.img.gz"
  scheme := .fs
  path := "/work/build/aboot.img.gz"
  content := [1]

def rootfs : Source where
  partition := "system_a"
  filePath := "build/rootfs.simg"
  scheme := .fs
  path := "/work/build/rootfs.simg"
  content := [2]

/-- An image of the same name as `rootfs`, in another directory. -/
def debugRootfs : Source :=
  { rootfs with partition := "system_b", filePath := "debug/rootfs.simg",
                path := "/work/debug/rootfs.simg", content := [3] }

theorem hashesApart_lab (h : ∀ s ∈ partitions, s = aboot ∨ s = rootfs ∨ s = debugRootfs) :
    HashesApart labExporter partitions := by
  constructor
  · intro s hs name stored hstored
    have hnine : stored = [9] := by
      simp only [labExporter] at hstored
      split at hstored
      · cases hstored
        rfl
      · cases hstored
    rcases h s hs with rfl | rfl | rfl <;> subst hnine <;> decide
  · intro s hs other hother
    rcases h s hs with rfl | rfl | rfl <;> rcases h other hother with rfl | rfl | rfl <;> decide

/-- Both partitions get their own image, and the earlier image in the storage is replaced. -/
theorem ownImages_lab :
    flashImages labExporter [aboot, rootfs] = .ok [("boot_a", [1, 1]), ("system_a", [2])] ∧
      OwnImages labExporter [aboot, rootfs] [("boot_a", [1, 1]), ("system_a", [2])] := by
  have hrun : flashImages labExporter [aboot, rootfs] =
      .ok [("boot_a", [1, 1]), ("system_a", [2])] := Lib.ok_of_toOption (by decide +kernel)
  have hhash : HashesApart labExporter [aboot, rootfs] := hashesApart_lab (by simp)
  have hapart : Apart labExporter [aboot, rootfs] :=
    apart_of_distinct (by decide +kernel) (by decide +kernel) (by decide +kernel)
  exact ⟨hrun, (ownImages_iff hhash hrun).2 hapart⟩

/-- With two images of one name, both partitions get the second. -/
theorem ownImages_fails :
    HashesApart labExporter [rootfs, debugRootfs] ∧
      flashImages labExporter [rootfs, debugRootfs] = .ok [("system_a", [3]), ("system_b", [3])] ∧
      ¬ OwnImages labExporter [rootfs, debugRootfs] [("system_a", [3]), ("system_b", [3])] :=
  ⟨hashesApart_lab (by simp), Lib.ok_of_toOption (by decide +kernel), by
    unfold OwnImages
    decide +kernel⟩

end Jumpstarter.RideSX
