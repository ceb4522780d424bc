import Ralf.Archive.Completeness

/-!
# W3C widget packages

`W3CPackage.verify` goes through the archive of a package and compares the contents of
each member with the signed digests.
-/

namespace W3c

open Archive

/-- A package: the signed digests, if it was opened with a verification bundle, and
the limits on its contents. -/
structure W3CPackage where
  digests : Option FileDigestMap
  maxExtractionBytes : Nat := sizeMax
  maxExtractionEntries : Nat := sizeMax

section
variable (sha256 : Bytes → Bytes)

/-- The loop of `verifyArchiveFileEntry` over the data blocks, with the bytes that the
digest covers so far. -/
def verifyBlocks (expectedSize : Nat) : List DataBlock → Nat → Bytes → Result Bytes
  | [], _, digested => .ok digested
  | block :: rest, currentOffset, digested =>
    let blockSize := block.bytes.length
    let blockEnd := ((block.offset + blockSize) % 2 ^ 64).toNat
    if blockSize = 0 then verifyBlocks expectedSize rest currentOffset digested
    else if blockSize > maxPackageEntrySize ∨ blockEnd > maxPackageEntrySize then
      .error (.ralf .packageContentsInvalid "Invalid size of entry in package")
    else if block.offset < currentOffset then
      .error (.ralf .packageContentsInvalid "Invalid block offset in package")
    else
      let offset := block.offset.toNat
      -- a gap counts as zeros in the digest
      let digested := digested ++ List.replicate (offset - currentOffset) 0 ++ block.bytes
      -- the size is compared as a signed number
      if ((offset + blockSize : Nat) : Int) > asInt64 expectedSize then
        .error (.ralf .packageContentsInvalid "Invalid size of entry in package")
      else verifyBlocks expectedSize rest (offset + blockSize) digested

/-- Compares the data of a member with a digest. -/
def verifyArchiveFileEntry (member : Member) (expectedSize : Nat) (digest : Bytes) : Result Unit :=
  match verifyBlocks expectedSize member.blocks 0 [] with
  | .error error => .error error
  | .ok digested =>
    if member.dataEnd ≠ .eof then
      .error (.ralf .packageContentsInvalid "Failed to read an entry in the package")
    else if digest ≠ sha256 digested then
      .error (.ralf .packageContentsInvalid
        "Digest of entry in package does not match signed digest")
    else .ok ()

namespace W3CPackage

/-- What `verify` does with a member that is not a directory, once it has its digest.
It gives the total size. -/
def verifyContents (package : W3CPackage) (entryPath : Bytes) (path : FilePath) (member : Member)
    (digest : Bytes) (totalSize : Nat) : Result Nat :=
  match member.type with
  | .regular =>
    if member.size < 0 ∨ member.size > maxPackageEntrySize then
      .error (.ralf .packageContentsInvalid s!"Invalid size of entry '{path.cStr}' in package")
    else
      let totalSize := wrap64 (totalSize + member.size.toNat)
      if totalSize > package.maxExtractionBytes then
        -- the size is shown as a signed number
        let shown := (totalSize : Int).bmod (2 ^ 64)
        .error (.ralf .packageContentsInvalid
          s!"Total unpacked size of package is too large (size:{shown}, limit:{package.maxExtractionBytes})")
      else
        match verifyArchiveFileEntry sha256 member member.size.toNat digest with
        | .error error => .error error
        | .ok _ => .ok totalSize
  | .symlink =>
    match member.symlink with
    | none =>
      .error (.ralf .packageContentsInvalid
        s!"Invalid symlink target for '{Bytes.cString entryPath}'")
    | some target =>
      if sha256 target ≠ digest then
        .error (.ralf .packageContentsInvalid
          s!"Digest of symlink target for '{Bytes.cString entryPath}' does not match signed digest")
      else .ok totalSize
  | _ =>
    .error (.ralf .packageContentsInvalid
      s!"Package contains entry with invalid type '{path.cStr}'")

/-- The loop of `verify`, with the total size and the number of verified entries so
far. Any header that fails ends it. -/
def verifyLoop (package : W3CPackage) (digests : FileDigestMap) :
    List Header → Nat → Nat → Result Nat
  | [], _, entriesVerified => .ok entriesVerified
  | .failure :: _, _, entriesVerified => .ok entriesVerified
  | .entry member :: rest, totalSize, entriesVerified =>
    match member.pathname with
    | none => .error (.ralf .packageContentsInvalid "Invalid entry in package")
    | some entryPath =>
      let path := (FilePath.parse entryPath).lexicallyNormal
      if ¬verifyPackagePath path then
        .error (.ralf .packageContentsInvalid "Invalid path entry in package")
      else if member.type = .directory then
        verifyLoop package digests rest totalSize entriesVerified
      else
        match digests.find path with
        | none =>
          .error (.ralf .packageContentsInvalid s!"No signed digest found for file '{path.cStr}'")
        | some digest =>
          match package.verifyContents sha256 entryPath path member digest totalSize with
          | .error error => .error error
          | .ok totalSize => verifyLoop package digests rest totalSize (entriesVerified + 1)

/-- Compares all members with the digests, given what opening the archive gives. -/
def verify (package : W3CPackage) (createReader : Result (List Header)) : Result Unit :=
  match package.digests with
  | none => .error (.ralf .notSupported "Package wasn't opened with a verification bundle")
  | some digests =>
    if digests.size > package.maxExtractionEntries then
      .error (.ralf .packageContentsInvalid "Package contains too many files")
    else
      match createReader with
      | .error error => .error error
      | .ok headers =>
        match package.verifyLoop sha256 digests headers 0 0 with
        | .error error => .error error
        | .ok entriesVerified =>
          if entriesVerified ≠ digests.size then
            .error (.ralf .packageContentsInvalid "Package was missing some signed file(s)")
          else .ok ()

end W3CPackage

end

end W3c
