import Ralf.Erofs.ImageFiles
import Ralf.Oci.ErofsImageLayerReader
import Ralf.Oci.PublishedAnnotations

/-!
# Published layers

A layer is published as the blocks of an EROFS image with the hash area for them behind, and with
the root hash and the place of the hash area in its annotations. When a package with such a layer is
read, every session goes as one with a reader of the bare image (`published_layer`): the hash tree is
not seen, whatever the image is, wherever the layer lies in its file, and however it is read.
-/

namespace Oci

open DmVerity Erofs

variable {sha256 : Bytes → Sha256Digest}

/-! ## Images that are intact -/

section
variable {file : DataFile} {storage : Storage} {v : DmVerityVerifier}

/-- The reader of an intact image with its storage: the reader is one of the file, and the verifier
is `v` up to what it keeps. -/
def ReadsImage (sha256 : Bytes → Sha256Digest) (file : DataFile) (storage : Storage)
    (v : DmVerityVerifier) (fileOffset fileSize : Nat) (s : LiveFile × LiveState) : Prop :=
  ∃ g : DmVerityProtectedFile file, g.live = s.1 ∧
    DmVerityProtectedFile.Coherent (fun n data => v.stateless sha256 storage.hashes (n, data))
      fileOffset fileSize g ∧ SameTree sha256 storage.hashes v s.2.verifier

/-- One read: the answer is that of a reader without state, and so is the reader after it. -/
theorem ReadsImage.read (hstorage : storage.Unchanging file)
    (hfaults : ∀ block, ¬v.FaultsAt storage.hashes block) {fileOffset fileSize : Nat}
    {f : LiveFile} {w : LiveState}
    (h : ReadsImage sha256 file storage v fileOffset fileSize (f, w)) (buffer : Bytes) (offset : Nat) :
    ∃ g : DmVerityProtectedFile file, g.live = f ∧
      DmVerityProtectedFile.Coherent (fun n data => v.stateless sha256 storage.hashes (n, data))
        fileOffset fileSize g ∧
      (f.read (storage.source sha256) buffer buffer.length offset w).1 =
        (g.read (fun n data => v.stateless sha256 storage.hashes (n, data)) buffer buffer.length
          offset).1 ∧
      (f.read (storage.source sha256) buffer buffer.length offset w).2.1 =
        (g.read (fun n data => v.stateless sha256 storage.hashes (n, data)) buffer buffer.length
          offset).2.1 ∧
      ReadsImage sha256 file storage v fileOffset fileSize
        (f.read (storage.source sha256) buffer buffer.length offset w).2.2 := by
  obtain ⟨g, rfl, hg, htree⟩ := h
  obtain ⟨ok, data, f₁, w₁, w₁', hx, hy, htree₁⟩ :=
    @LiveFile.read_simulates _ _ _ _ _ w () (source_simulates hstorage hfaults) htree g.live buffer
      buffer.length offset
  rw [LiveFile.read_eq] at hy
  have hcoherent := @DmVerityProtectedFile.read_coherent _ _ _ _ g buffer _ offset hg rfl
  rw [hx]
  cases hy
  exact ⟨g, rfl, hg, rfl, rfl, _, rfl, hcoherent, htree₁⟩

/-- An image whose blocks are all accepted behaves as the bare image. -/
theorem reads_behaves (hstorage : storage.Unchanging file)
    (hfaults : ∀ block, ¬v.FaultsAt storage.hashes block) {dmverityFile : DmVerityProtectedFile file}
    (hintact : Intact (fun n data => v.stateless sha256 storage.hashes (n, data)) dmverityFile)
    {bare : DataFile} {limit : Nat} (hfull : GivesUpTo bare limit)
    (hlimit : dmverityFile.fileSize ≤ limit) {raw : ErofsRawImageFile bare}
    (hcontents : raw.contents = DmVerityErofsImageFile.contents dmverityFile)
    (hsize : raw.size = dmverityFile.fileSize) {size : Nat} (hlt : size < 2 ^ 64)
    (heq : size = dmverityFile.fileSize) :
    Behaves (liveImage (storage.source sha256) size hlt)
      (ReadsImage sha256 file storage v dmverityFile.fileOffset dmverityFile.fileSize)
      raw.toImageFile where
  size := hsize.trans heq.symm
  keeps {s buffer offset} hs := (ReadsImage.read hstorage hfaults hs buffer offset).choose_spec.2.2.2.2
  read {s buffer offset} hs := by
    obtain ⟨g, -, hg, hok, hdata, -⟩ := ReadsImage.read hstorage hfaults hs buffer offset
    show ((raw.read buffer offset).1, (raw.read buffer offset).2, ()) =
      ((s.1.read (storage.source sha256) buffer buffer.length offset s.2).1,
        (s.1.read (storage.source sha256) buffer buffer.length offset s.2).2.1, ())
    rw [hok, hdata]
    by_cases hrange : offset ≥ dmverityFile.fileSize ∨ buffer.length > dmverityFile.fileSize - offset
    · have hrange' : offset ≥ g.fileSize ∨ buffer.length > g.fileSize - offset := by
        rwa [hg.size_eq]
      rw [ErofsRawImageFile.read, hsize, if_pos hrange, DmVerityProtectedFile.read, if_pos hrange']
    · have hinside : offset < dmverityFile.fileSize := by omega
      have hfits : offset + buffer.length ≤ dmverityFile.fileSize := by omega
      obtain ⟨hgood, hbytes⟩ := DmVerityErofsImageFile.read_inside hintact hg hinside hfits
      obtain ⟨hraw, hrawBytes⟩ := @ErofsRawImageFile.read_inside bare raw limit offset buffer hfull
        (hsize ▸ hinside) (hsize ▸ hfits)
      have hrawOk := hraw.mpr (by omega)
      rw [hgood, hbytes, hrawOk, hrawBytes hrawOk, hcontents]

end

/-! ## A layer in a file -/

section
variable (sha256 : Bytes → Sha256Digest) (salt uuid : Bytes) (blocks : List Bytes)

/-- The bytes of a layer: the blocks of an image, and the hash area for them. -/
def layerBytes : Bytes := blocks.flatten ++ hashArea sha256 salt uuid blocks

/-- A layer that was published, at the place of a file that it is mapped at. There may be more
behind the hash area. -/
structure PublishedLayer (front back : Bytes) (range : MappedRange) : Prop where
  block_length : ∀ block ∈ blocks, block.length = 4096
  uuid_length : uuid.length = 16
  salt_length : salt.length ≤ 256
  blocks_pos : 1 ≤ blocks.length
  blocks_le : blocks.length ≤ 131072
  root_ne : treeRoot sha256 salt blocks ≠ .zero
  length_lt : (front ++ (layerBytes sha256 salt uuid blocks ++ back)).length < 2 ^ 63
  offset_eq : range.offset = front.length
  size_ge : (layerBytes sha256 salt uuid blocks).length ≤ range.size
  size_le : range.offset + range.size ≤
    (front ++ (layerBytes sha256 salt uuid blocks ++ back)).length

end

/-- A file that gives everything it is asked for. -/
def wholeFile (contents : Bytes) (hlt : contents.length < 2 ^ 63) : DataFile where
  contents := contents
  length_lt := hlt
  pread offset size := .data (contents.slice offset size)
  pread_prefix := by
    rintro offset size bytes ⟨⟩
    exact List.prefix_rfl

/-- Storage with one file, for the data and for the hashes. -/
def wholeStorage (contents : Bytes) : Storage where
  pread _ offset size := .data (contents.slice offset size)
  pread_le _ offset size bytes h := by
    cases h
    exact Bytes.slice_length_le contents offset size
  hashes := .ofBytes contents

namespace PublishedLayer

variable {salt uuid : Bytes} {blocks : List Bytes} {front back : Bytes} {range : MappedRange}

/-- The bytes of the file. -/
def contents (_ : PublishedLayer sha256 salt uuid blocks front back range) : Bytes :=
  front ++ (layerBytes sha256 salt uuid blocks ++ back)

def file (h : PublishedLayer sha256 salt uuid blocks front back range) : DataFile :=
  wholeFile h.contents h.length_lt

theorem contents_length (h : PublishedLayer sha256 salt uuid blocks front back range) :
    h.contents.length = front.length + (blocks.flatten.length +
      ((hashArea sha256 salt uuid blocks).length + back.length)) := by
  rw [contents, layerBytes, List.length_append, List.append_assoc, List.length_append,
    List.length_append]

theorem flatten_length (h : PublishedLayer sha256 salt uuid blocks front back range) :
    blocks.flatten.length = blocks.length * 4096 := Bytes.length_flatten h.block_length

theorem wellFormed (h : PublishedLayer sha256 salt uuid blocks front back range) :
    (VeritySuperBlock.formatted uuid blocks.length salt).WellFormed :=
  VeritySuperBlock.formatted_wellFormed h.uuid_length
    (Nat.lt_of_le_of_lt h.blocks_le (by decide)) h.salt_length

theorem area_length (h : PublishedLayer sha256 salt uuid blocks front back range) :
    4096 ≤ (hashArea sha256 salt uuid blocks).length := by
  rw [hashArea_length h.wellFormed]
  omega

theorem size_eq (h : PublishedLayer sha256 salt uuid blocks front back range) :
    blocks.flatten.length + (hashArea sha256 salt uuid blocks).length ≤ range.size := by
  have hsize := h.size_ge
  rwa [layerBytes, List.length_append] at hsize

/-- The hash area in the file. -/
theorem embedded (h : PublishedLayer sha256 salt uuid blocks front back range) :
    Embedded sha256 salt uuid blocks (front ++ blocks.flatten) back
      (some (wrap64 (blocks.flatten.length + range.offset)))
      (some (range.size - blocks.flatten.length)) := by
  have hcontents : (front ++ blocks.flatten) ++ (hashArea sha256 salt uuid blocks ++ back) =
      h.contents := by
    simp only [contents, layerBytes, List.append_assoc]
  have hlength := h.contents_length
  have hlt : h.contents.length < 2 ^ 63 := h.length_lt
  have hsize := h.size_eq
  have hle : range.offset + range.size ≤ h.contents.length := h.size_le
  have hoffset := h.offset_eq
  refine ⟨h.uuid_length, h.salt_length, h.blocks_pos, h.blocks_le, hcontents ▸ hlt, ?_, ?_, ?_⟩
  · rw [Option.getD_some, wrap64_of_lt (by omega), List.length_append]
    omega
  · rintro size ⟨⟩
    omega
  · rintro size ⟨⟩
    rw [hcontents, List.length_append]
    omega

theorem embedded_file (h : PublishedLayer sha256 salt uuid blocks front back range) :
    (wholeStorage h.contents).hashes = h.embedded.file := by
  rw [Embedded.file, wholeStorage]
  simp only [contents, layerBytes, List.append_assoc]

/-- A block of the image, in the file. -/
theorem slice_block (h : PublishedLayer sha256 salt uuid blocks front back range) {n : Nat}
    (hn : n < blocks.length) :
    h.contents.slice (front.length + n * kBlockSize) kBlockSize = blocks[n] := by
  have hlength := h.flatten_length
  rw [contents, layerBytes, Bytes.slice_append_right, List.append_assoc, Bytes.slice_append_left]
  · exact Bytes.slice_flatten h.block_length hn
  · rw [hlength, kBlockSize]
    omega

/-- The image, in the file. -/
theorem slice_image (h : PublishedLayer sha256 salt uuid blocks front back range) :
    h.contents.slice front.length blocks.flatten.length = blocks.flatten := by
  have hslice := @Bytes.slice_append_right front (layerBytes sha256 salt uuid blocks ++ back) 0
    blocks.flatten.length
  rw [Nat.add_zero] at hslice
  rw [contents, hslice, layerBytes, List.append_assoc, Bytes.slice_append_eq rfl]

theorem flatten_lt (h : PublishedLayer sha256 salt uuid blocks front back range) :
    blocks.flatten.length < 2 ^ 63 := by
  have hle := h.blocks_le
  rw [h.flatten_length]
  omega

/-- The bare image, in a file of its own. -/
def image (h : PublishedLayer sha256 salt uuid blocks front back range) : DataFile :=
  wholeFile blocks.flatten h.flatten_lt

/-- The constructor opens the image. -/
theorem openImage_ok (h : PublishedLayer sha256 salt uuid blocks front back range)
    {fds : ProtectedFds} (hdupHashes : fds.dupHashes = none) (hdupData : fds.dupData = none)
    (hdata : fds.dataSize = .ok h.contents.length)
    (memory : { bytes : Bytes // bytes.length = kBlockSize }) :
    ∃ f w, OCIErofsImageLayerReader.openImage sha256 (wholeStorage h.contents) fds (some range)
        blocks.flatten.length (treeRoot sha256 salt blocks).val memory = .ok (f, w) ∧
      DmVerity.OpenedFile sha256 (wholeStorage h.contents)
        { fds with dataFileFd := range.fd, hashesFileFd := range.fd } (some range.offset)
        (some blocks.flatten.length) (some (wrap64 (blocks.flatten.length + range.offset)))
        (some (range.size - blocks.flatten.length)) (treeRoot sha256 salt blocks).val f w ∧
      f.fileOffset = front.length ∧ f.fileSize = blocks.flatten.length ∧
      w.verifier.dataBlockCount = blocks.length ∧
      w.verifier.hashesOffset = (front ++ blocks.flatten).length ∧ w.verifier.salt = salt := by
  have hlength := h.flatten_length
  have hpos := h.blocks_pos
  have harea := h.area_length
  have hsize := h.size_eq
  have hoffset := h.offset_eq
  have hinside : range.offset + range.size ≤ h.contents.length := h.size_le
  have hlt : h.contents.length < 2 ^ 63 := h.length_lt
  have hsmall : ¬(range.size < 8192 ∨ range.offset > sizeMax ∨
      wrap64 (range.offset + range.size) > sizeMax) := by
    rw [wrap64_of_lt (by omega), sizeMax]
    omega
  have hrange : fileRange fds.dataSize (some range.offset) (some blocks.flatten.length) =
      .ok (range.offset, blocks.flatten.length) := by
    rw [hdata]
    show checkAndCalcFileRange h.contents.length _ _ = _
    rw [checkAndCalcFileRange]
    dsimp only [Option.getD_some]
    rw [if_neg (by omega), if_neg (by omega)]
  obtain ⟨f, w, hopen, hstart, hfileSize, hrest⟩ := h.embedded.protects (wholeStorage h.contents)
    h.embedded_file { fds with dataFileFd := range.fd, hashesFileFd := range.fd } memory
    (Int.natCast_nonneg _) (Int.natCast_nonneg _) hdupHashes hdupData hrange (Nat.le_of_eq hlength)
  refine ⟨f, w, ?_, IDmVerityProtectedFile.open_ok hopen, hstart.trans hoffset, hfileSize, hrest⟩
  unfold OCIErofsImageLayerReader.openImage
  dsimp only
  rw [if_neg hsmall, if_neg (by omega), hopen]

/-- Every block of the image is accepted. -/
theorem intact (h : PublishedLayer sha256 salt uuid blocks front back range)
    {v : DmVerityVerifier} (hcount : v.dataBlockCount = blocks.length)
    (hoffset : v.hashesOffset = (front ++ blocks.flatten).length) (hsalt : v.salt = salt)
    (hroot : v.rootHash = treeRoot sha256 salt blocks) {g : DmVerityProtectedFile h.file}
    (hstart : g.fileOffset = front.length) (hsize : g.fileSize = blocks.flatten.length) :
    Intact (fun n data => v.stateless sha256 (wholeStorage h.contents).hashes (n, data)) g := by
  intro n hn
  rw [hsize, h.flatten_length] at hn
  have hblock : n < blocks.length := Nat.lt_of_mul_lt_mul_right hn
  have hlt : h.contents.length < 2 ^ 63 := h.length_lt
  have hlength := h.contents_length
  have hflatten := h.flatten_length
  refine ⟨blocks[n], ?_, h.block_length _ (List.getElem_mem hblock), ?_⟩
  · rw [hstart, kBlockSize, wrap64_of_lt (by omega)]
    exact congrArg DmVerity.ReadResult.data (h.slice_block hblock)
  · rw [h.embedded_file]
    exact h.embedded.stateless_eq_true hcount hoffset hsalt hroot hblock

end PublishedLayer

open OCIErofsImageLayerReader in
/-- Every session over a published layer is a session over the bare image. -/
theorem published_session {salt uuid : Bytes} {blocks : List Bytes} {front back : Bytes}
    {range : MappedRange} (h : PublishedLayer sha256 salt uuid blocks front back range)
    {fds : ProtectedFds} (hdupHashes : fds.dupHashes = none) (hdupData : fds.dupData = none)
    (hdata : fds.dataSize = .ok h.contents.length)
    (memory : { bytes : Bytes // bytes.length = kBlockSize }) (lz4 : Lz4) :
    ∃ bare, ErofsRawImageFile.open h.image none none none none = .ok bare ∧ ∀ calls,
      serve lz4 calls (new sha256 (wholeStorage h.contents) lz4 fds (some range)
          blocks.flatten.length (treeRoot sha256 salt blocks).val memory) =
        serve lz4 calls (ofImage lz4 bare.toImageFile ()) := by
  obtain ⟨f, w, hopen, hopened, hstart, hsize, hcount, hoffset, hsalt⟩ :=
    h.openImage_ok hdupHashes hdupData hdata memory
  obtain ⟨bare, hbare, hbareOffset, hbareSize⟩ :=
    @ErofsRawImageFile.open_succeeds h.image none none (Nat.zero_le _) (Nat.le_refl _)
  refine ⟨bare, hbare, fun calls => ?_⟩
  obtain ⟨_, -, hverifier⟩ := hopened.verifier
  have hv := DmVerityVerifier.open_ok hverifier
  have hroot : w.verifier.rootHash = treeRoot sha256 salt blocks := Subtype.ext hv.rootHash
  have hstorage : (wholeStorage h.contents).Unchanging h.file :=
    ⟨fun _ _ _ => rfl, HashesFile.ofBytes_unchanging _⟩
  obtain ⟨g, rfl, hg⟩ := @DmVerity.OpenedFile.live _ _ _ h.file _ _ _ _ _ _ _ hopened hdata
    fun n data => w.verifier.stateless sha256 (wholeStorage h.contents).hashes (n, data)
  have hfull : GivesUpTo h.image blocks.flatten.length := by
    intro offset size hfits
    have hle : size ≤ blocks.flatten.length := Nat.le_trans (Nat.le_add_left _ _) hfits
    rw [Nat.min_eq_left hle]
    rfl
  have hcontents : bare.contents = DmVerityErofsImageFile.contents g := by
    have himage : DmVerityErofsImageFile.contents g = blocks.flatten := by
      rw [DmVerityErofsImageFile.contents, show g.fileOffset = front.length from hstart,
        show g.fileSize = blocks.flatten.length from hsize]
      exact h.slice_image
    rw [himage, ErofsRawImageFile.contents, hbareOffset, hbareSize]
    exact Bytes.slice_zero_self blocks.flatten
  have hbehaves := reads_behaves hstorage
    (hv.not_faultsAt hstorage.hashes (hroot ▸ h.root_ne))
    (h.intact hcount hoffset hsalt hroot hstart hsize) hfull (Nat.le_of_eq hsize) hcontents
    (hbareSize.trans hsize.symm) (wrap64_lt g.live.fileSize)
    (wrap64_of_lt (hsize ▸ h.flatten_lt.trans (by decide)))
  rw [new, hopen]
  exact serve_behaves hbehaves
    ⟨g, rfl, hg, hv.refinesFile hstorage.hashes, w.verifier.layer0, rfl⟩ calls

/-! ## A layer of a package -/

section
variable {σ Certificate MetaData : Type} {store : IOCIBackingStore σ}

/-- A package whose image is an EROFS layer with annotations, and whose store maps its blob. -/
structure MapsImage (store : IOCIBackingStore σ) (package : OCIPackage Certificate MetaData)
    (details : OCIPackage.DmVerityAnnotations) (mapped : IOCIMappableFile) (s s' : σ) : Prop where
  hasBackingStore : package.hasBackingStore = true
  image : ∃ image, package.packageImageDescriptor = some image ∧
    Written image.descriptor details ∧
    store.getMappableFile (blobPath image.descriptor.digest) s = (.ok mapped, s')

theorem MapsImage.createReader {package : OCIPackage Certificate MetaData}
    {details : OCIPackage.DmVerityAnnotations} {mapped : IOCIMappableFile} {s s' : σ}
    (h : MapsImage store package details mapped s s') :
    package.createReader store s =
      .ok (.ok (.erofs mapped details.hashesOffset details.rootHash), s') := by
  obtain ⟨image, himage, hwritten, hmapped⟩ := h.image
  unfold OCIPackage.createReader
  rw [himage]
  dsimp only
  rw [if_pos hwritten.mediaType, getDmVerityAnnotations_written hwritten]
  dsimp only
  rw [if_neg (not_not.mpr h.hasBackingStore), hmapped]

open OCIErofsImageLayerReader in
/-- A package with a published layer gives a reader whose sessions are those over the bare image. -/
theorem published_layer {package : OCIPackage Certificate MetaData}
    {details : OCIPackage.DmVerityAnnotations} {mapped : IOCIMappableFile} {s s' : σ}
    (hpackage : MapsImage store package details mapped s s')
    {salt uuid : Bytes} {blocks : List Bytes} {front back : Bytes}
    {place : IOCIMappableFile → MappedRange}
    (h : PublishedLayer sha256 salt uuid blocks front back (place mapped))
    (hrootHash : details.rootHash = (treeRoot sha256 salt blocks).val)
    (hhashesOffset : details.hashesOffset = blocks.flatten.length)
    {fds : ProtectedFds} (hdupHashes : fds.dupHashes = none) (hdupData : fds.dupData = none)
    (hdata : fds.dataSize = .ok h.contents.length)
    (memory : { bytes : Bytes // bytes.length = kBlockSize }) (lz4 : Lz4) :
    ∃ mapped hashesOffset rootHash, package.createReader store s =
        .ok (.ok (.erofs mapped hashesOffset rootHash), s') ∧
      ∃ bare, ErofsRawImageFile.open h.image none none none none = .ok bare ∧ ∀ calls,
        serve lz4 calls (new sha256 (wholeStorage h.contents) lz4 fds (some (place mapped))
            hashesOffset rootHash memory) =
          serve lz4 calls (ofImage lz4 bare.toImageFile ()) := by
  refine ⟨mapped, _, _, hpackage.createReader, ?_⟩
  rw [hrootHash, hhashesOffset]
  exact published_session h hdupHashes hdupData hdata memory lz4

end

/-! ### An image of two blocks -/

theorem twoDataBlocks_layer_length :
    (layerBytes prefixHash [] (List.replicate 16 0) twoDataBlocks).length = 16384 := by
  have hsizes : levelSizes 2 = [1] := by
    rw [levelSizes]
    rfl
  have hwf : (VeritySuperBlock.formatted (List.replicate 16 0) twoDataBlocks.length
    []).WellFormed := twoBlocks_wellFormed
  rw [layerBytes, List.length_append, twoDataBlocks_length, hashArea_length hwf,
    hashLevels_sizes (by decide), show twoDataBlocks.length = 2 from rfl, hsizes]
  rfl

theorem header_lt : 512 < 2 ^ 64 := by decide

theorem layer_lt : 16384 < 2 ^ 64 := by decide

/-- Its place, behind 512 other bytes. -/
def twoBlockRange : MappedRange := ⟨3, 512, 16384, header_lt, layer_lt⟩

theorem twoBlockLayer : PublishedLayer prefixHash [] (List.replicate 16 0) twoDataBlocks
    (List.replicate 512 9) [] twoBlockRange := by
  obtain ⟨bytes, hroot⟩ := treeRoot_eq_hash prefixHash [] twoDataBlocks
  have hlength : (List.replicate 512 9 ++
      (layerBytes prefixHash [] (List.replicate 16 0) twoDataBlocks ++ [])).length = 16896 := by
    rw [List.length_append, List.length_append, twoDataBlocks_layer_length, List.length_replicate]
    rfl
  exact {
    block_length := twoDataBlocks_block_length
    uuid_length := List.length_replicate
    salt_length := by decide
    blocks_pos := by decide
    blocks_le := by decide
    root_ne := hroot ▸ prefixHash_ne_zero bytes
    length_lt := hlength ▸ (by decide)
    offset_eq := List.length_replicate.symm
    size_ge := Nat.le_of_eq twoDataBlocks_layer_length
    size_le := Nat.le_of_eq hlength.symm }

/-- Its descriptor. -/
def twoBlockDescriptor : AnnotatedDescriptor where
  mediaType := packageImageMediaTypeErofs
  digest := []
  size := 16384
  annotations :=
    [(OCIPackage.rootHashKey, String.ofList (Fields.hex (treeRoot prefixHash [] twoDataBlocks).val)),
      (saltKey, String.ofList (Fields.hex [])),
      (OCIPackage.offsetKey, String.ofList (Fields.decimal 8192))]

def twoBlockPackage : OCIPackage Unit Unit where
  packageImageDescriptor := some ⟨twoBlockDescriptor, []⟩

/-- A store that has nothing but files that can be mapped. -/
def mappingStore : IOCIBackingStore Unit where
  readFile _ _ s := (.error (.ralf .fileNotFound ""), s)
  getFile _ s := (.error (.ralf .fileNotFound ""), s)
  getMappableFile _ s := (.ok ⟨[]⟩, s)

theorem twoBlockPackage_maps : MapsImage mappingStore twoBlockPackage
    ⟨(treeRoot prefixHash [] twoDataBlocks).val, [], 8192⟩ ⟨[]⟩ () () where
  hasBackingStore := rfl
  image := ⟨⟨twoBlockDescriptor, []⟩, rfl,
    { mediaType := rfl
      keys := (by decide : [OCIPackage.rootHashKey, saltKey, OCIPackage.offsetKey].Nodup)
      rootHash := List.mem_cons_self
      salt := List.mem_cons_of_mem _ List.mem_cons_self
      offset := List.mem_cons_of_mem _ (List.mem_cons_of_mem _ List.mem_cons_self)
      rootHash_length := (treeRoot prefixHash [] twoDataBlocks).property
      salt_length := Nat.zero_le _
      offset_min := (by decide : minErofsImageSize ≤ 8192)
      offset_max := (by decide : 8192 ≤ maxErofsImageSize)
      inside := (by decide : 8192 + minDmVerityImageSize ≤ 16384)
      size_lt := layer_lt }, rfl⟩

open OCIErofsImageLayerReader in
/-- Sessions with this package. -/
theorem published_layer_twoBlocks :
    ∃ mapped hashesOffset rootHash, twoBlockPackage.createReader mappingStore () =
        .ok (.ok (.erofs mapped hashesOffset rootHash), ()) ∧
      ∃ bare, ErofsRawImageFile.open twoBlockLayer.image none none none none = .ok bare ∧ ∀ calls,
        serve ErofsReader.noLz4 calls (new prefixHash (wholeStorage twoBlockLayer.contents)
            ErofsReader.noLz4 ⟨3, 3, .ok twoBlockLayer.contents.length, none, none, false⟩
            (some twoBlockRange) hashesOffset rootHash
            ⟨List.replicate 4096 0, List.length_replicate⟩) =
          serve ErofsReader.noLz4 calls (ofImage ErofsReader.noLz4 bare.toImageFile ()) :=
  @published_layer _ _ _ _ _ _ _ _ _ _ twoBlockPackage_maps _ _ _ _ _ (fun _ => twoBlockRange)
    twoBlockLayer rfl twoDataBlocks_length.symm _ rfl rfl rfl
    ⟨List.replicate 4096 0, List.length_replicate⟩ ErofsReader.noLz4

end Oci
