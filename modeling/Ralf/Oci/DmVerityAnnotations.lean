import Ralf.Oci.Package

/-!
# The dm-verity annotations of an image

The root hash and the offset of the hashes of an image are texts in the annotations of its
descriptor. The decoder of hexadecimal digits stops at the first pair that is none, and
`strtoull` goes over blanks and a sign and stops behind the digits.
`getDmVerityAnnotations_reads` says what the texts are when the annotations are accepted.
-/

namespace Oci

open Numeral

/-! ## Hexadecimal digits -/

/-- The value of a hexadecimal digit. -/
def hexValue (c : UInt8) : Nat :=
  if 48 ≤ c ∧ c ≤ 57 then c.toNat - 48
  else if 97 ≤ c ∧ c ≤ 102 then c.toNat - 97 + 10
  else c.toNat - 65 + 10

/-- Pairs of digits with the bytes that they stand for. -/
inductive Decodes : Bytes → Bytes → Prop
  | nil : Decodes [] []
  | pair {high low byte : UInt8} {text bytes : Bytes} (hhigh : isHexDigit high = true)
      (hlow : isHexDigit low = true) (hbyte : byte.toNat = 16 * hexValue high + hexValue low)
      (hrest : Decodes text bytes) : Decodes (high :: low :: text) (byte :: bytes)

theorem Decodes.length {text bytes : Bytes} (h : Decodes text bytes) :
    text.length = 2 * bytes.length := by
  induction h with
  | nil => rfl
  | pair _ _ _ _ ih =>
    rw [List.length_cons, List.length_cons, List.length_cons, ih]
    omega

theorem Decodes.digits {text bytes : Bytes} (h : Decodes text bytes) :
    ∀ c ∈ text, isHexDigit c = true := by
  induction h with
  | nil => exact fun _ hmem => (nomatch hmem)
  | pair hhigh hlow _ _ ih =>
    exact List.forall_mem_cons.mpr ⟨hhigh, List.forall_mem_cons.mpr ⟨hlow, ih⟩⟩

theorem hexDigitToByte_toNat (c : UInt8) (h : isHexDigit c = true) :
    (hexDigitToByte c).toNat = hexValue c ∧ hexValue c < 16 := by
  have hall : ∀ n : Fin 256, isHexDigit (UInt8.ofNat n) = true →
      (hexDigitToByte (UInt8.ofNat n)).toNat = hexValue (UInt8.ofNat n) ∧
        hexValue (UInt8.ofNat n) < 16 := by decide +kernel
  have hc := hall ⟨c.toNat, c.toNat_lt⟩
  rw [UInt8.ofNat_toNat] at hc
  exact hc h

/-- The four bits of two digits. -/
theorem nibbles_toNat {high low : UInt8} (hhigh : high.toNat < 16) (hlow : low.toNat < 16) :
    (high <<< 4 ||| low).toNat = 16 * high.toNat + low.toNat := by
  have hall : ∀ h l : Fin 16, (UInt8.ofNat h <<< 4 ||| UInt8.ofNat l).toNat = 16 * h + l := by
    decide +kernel
  have hnibbles := hall ⟨high.toNat, hhigh⟩ ⟨low.toNat, hlow⟩
  rw [UInt8.ofNat_toNat, UInt8.ofNat_toNat] at hnibbles
  exact hnibbles

/-- What is decoded of a text is pairs of digits at its start, and no such pair follows. -/
theorem hexStringToBytes_decodes (text : Bytes) :
    ∃ pairs rest, text = pairs ++ rest ∧ Decodes pairs (hexStringToBytes text) ∧
      hexStringToBytes rest = [] := by
  induction text using hexStringToBytes.induct with
  | case1 high low rest hdigits ih =>
    obtain ⟨hhigh, hlow⟩ := Bool.and_eq_true_iff.mp hdigits
    obtain ⟨pairs, after, hrest, hdecodes, hend⟩ := ih
    refine ⟨high :: low :: pairs, after, by rw [hrest]; rfl, ?_, hend⟩
    rw [hexStringToBytes, if_pos hdigits]
    obtain ⟨hhighByte, hhighLt⟩ := hexDigitToByte_toNat high hhigh
    obtain ⟨hlowByte, hlowLt⟩ := hexDigitToByte_toNat low hlow
    refine .pair hhigh hlow ?_ hdecodes
    rw [nibbles_toNat (by omega) (by omega), hhighByte, hlowByte]
  | case2 high low rest hdigits =>
    have hnone : hexStringToBytes (high :: low :: rest) = [] := by
      rw [hexStringToBytes, if_neg hdigits]
    rw [hnone]
    exact ⟨[], _, rfl, .nil, hnone⟩
  | case3 text hshort =>
    have hnone : hexStringToBytes text = [] := by
      unfold hexStringToBytes
      split
      · next high low rest => exact absurd rfl (hshort high low rest)
      · rfl
    rw [hnone]
    exact ⟨[], _, rfl, .nil, hnone⟩

/-! ## The annotations -/

namespace OCIPackage

def rootHashKey : String := "org.rdk.package.content.dmverity.roothash"

def offsetKey : String := "org.rdk.package.content.dmverity.offset"

/-- Each field is what it was or comes from an annotation. -/
theorem foldl_dmVerityField (annotations : List (String × String))
    (details : DmVerityAnnotations) :
    let read := annotations.foldl dmVerityField details
    (read.rootHash = details.rootHash ∨ ∃ text, (rootHashKey, text) ∈ annotations ∧
      read.rootHash = hexStringToBytes (Bytes.ofString text)) ∧
    (read.hashesOffset = details.hashesOffset ∨ ∃ text, (offsetKey, text) ∈ annotations ∧
      read.hashesOffset = (strtoul 10 (Bytes.ofString text)).toNat) := by
  induction annotations generalizing details with
  | nil => exact ⟨.inl rfl, .inl rfl⟩
  | cons annotation rest ih =>
    obtain ⟨key, value⟩ := annotation
    obtain ⟨hrootHash, hoffset⟩ := ih (dmVerityField details (key, value))
    have hstep : ((dmVerityField details (key, value)).rootHash = details.rootHash ∨
          key = rootHashKey ∧ (dmVerityField details (key, value)).rootHash =
            hexStringToBytes (Bytes.ofString value)) ∧
        ((dmVerityField details (key, value)).hashesOffset = details.hashesOffset ∨
          key = offsetKey ∧ (dmVerityField details (key, value)).hashesOffset =
            (strtoul 10 (Bytes.ofString value)).toNat) := by
      unfold dmVerityField
      dsimp only
      split
      · next hkey => exact ⟨.inr ⟨hkey, rfl⟩, .inl rfl⟩
      split
      · exact ⟨.inl rfl, .inl rfl⟩
      split
      · next hkey => exact ⟨.inl rfl, .inr ⟨hkey, rfl⟩⟩
      · exact ⟨.inl rfl, .inl rfl⟩
    rw [List.foldl_cons]
    constructor
    · rcases hrootHash with hsame | ⟨text, hmem, hread⟩
      · rcases hstep.1 with hkept | ⟨hkey, hread⟩
        · exact .inl (hsame.trans hkept)
        · exact .inr ⟨value, by rw [hkey]; exact List.mem_cons_self, hsame.trans hread⟩
      · exact .inr ⟨text, List.mem_cons_of_mem _ hmem, hread⟩
    · rcases hoffset with hsame | ⟨text, hmem, hread⟩
      · rcases hstep.2 with hkept | ⟨hkey, hread⟩
        · exact .inl (hsame.trans hkept)
        · exact .inr ⟨value, by rw [hkey]; exact List.mem_cons_self, hsame.trans hread⟩
      · exact .inr ⟨text, List.mem_cons_of_mem _ hmem, hread⟩

/-- The annotations as they are written: the offset in decimal digits, so that the hashes
have a block in the image, and the root hash in 64 hexadecimal digits. -/
structure ExactAnnotations (descriptor : AnnotatedDescriptor) (details : DmVerityAnnotations) :
    Prop where
  offset : ∃ text, (offsetKey, text) ∈ descriptor.annotations ∧
    (∀ c ∈ Bytes.ofString text, isDigit 10 c = true) ∧
    details.hashesOffset = ofDigits 10 (Bytes.ofString text)
  offset_min : 4096 ≤ details.hashesOffset
  inside : details.hashesOffset + 4096 ≤ descriptor.size
  rootHash : ∃ text, (rootHashKey, text) ∈ descriptor.annotations ∧
    (Bytes.ofString text).length = 64 ∧ Decodes (Bytes.ofString text) details.rootHash

/-- The annotations as they are read: the offset as `strtoull` reads it, and the root hash in 64
hexadecimal digits that are not followed by a pair of digits. -/
structure ReadAnnotations (descriptor : AnnotatedDescriptor) (details : DmVerityAnnotations) :
    Prop where
  offset : ∃ text, (offsetKey, text) ∈ descriptor.annotations ∧
    Reads 10 (Bytes.ofString text) details.hashesOffset
  offset_min : 4096 ≤ details.hashesOffset
  offset_max : details.hashesOffset ≤ 2 * 1024 * 1024 * 1024
  inside : 4096 ≤ descriptor.size → details.hashesOffset + 4096 ≤ descriptor.size
  rootHash : ∃ text pairs rest, (rootHashKey, text) ∈ descriptor.annotations ∧
    Bytes.ofString text = pairs ++ rest ∧ pairs.length = 64 ∧ Decodes pairs details.rootHash ∧
    ∀ high low more, rest = high :: low :: more → ¬ (isHexDigit high = true ∧ isHexDigit low = true)

theorem no_pair_of_hexStringToBytes {rest : Bytes} (h : hexStringToBytes rest = [])
    (high low : UInt8)
    (more : Bytes) (hrest : rest = high :: low :: more) :
    ¬ (isHexDigit high = true ∧ isHexDigit low = true) := by
  intro hdigits
  rw [hrest, hexStringToBytes, if_pos (Bool.and_eq_true_iff.mpr hdigits)] at h
  cases h

/-- What the annotations are when they are accepted. -/
theorem getDmVerityAnnotations_reads (descriptor : AnnotatedDescriptor)
    (details : DmVerityAnnotations) (hsize : descriptor.size < 2 ^ 31)
    (h : getDmVerityAnnotations descriptor = .ok details) : ReadAnnotations descriptor details := by
  unfold getDmVerityAnnotations at h
  split at h
  · cases h
  obtain ⟨hrootHash, hoffset⟩ := foldl_dmVerityField descriptor.annotations
    { hashesOffset := 2 ^ 64 - 1 }
  dsimp only at h
  split at h
  · cases h
  next hlength =>
  split at h
  · cases h
  next hrange =>
  split at h
  · cases h
  next hinside =>
  split at h
  · cases h
  cases h
  rw [not_or, not_lt, gt_iff_lt, not_lt] at hrange
  rw [not_not] at hlength
  rw [gt_iff_lt, not_lt] at hinside
  refine ⟨?_, hrange.1, hrange.2, fun hmin => ?_, ?_⟩
  · have hmax := hrange.2
    rcases hoffset with hmissing | ⟨text, hmem, hread⟩
    · rw [hmissing] at hmax
      exact absurd hmax (by decide)
    · refine ⟨text, hmem, ?_⟩
      rw [hread] at hrange ⊢
      exact reads_of_strtoul (by decide) (Nat.lt_of_lt_of_le (by decide) hrange.1)
        (Nat.lt_of_le_of_lt hrange.2 (by decide))
  · have hdifference : wrapSub64 descriptor.size minDmVerityImageSize = descriptor.size - 4096 :=
      wrapSub64_of_le hmin (by omega)
    omega
  · rcases hrootHash with hmissing | ⟨text, hmem, hread⟩
    · rw [hmissing] at hlength
      cases hlength
    · obtain ⟨pairs, rest, htext, hdecodes, hend⟩ := hexStringToBytes_decodes (Bytes.ofString text)
      rw [← hread] at hdecodes
      refine ⟨text, pairs, rest, hmem, htext, ?_, hdecodes, no_pair_of_hexStringToBytes hend⟩
      rw [hdecodes.length, hlength]

/-! ### Texts that are accepted -/

/-- An image of 8192 bytes with an offset of 4096 and a root hash of zeros, and a text behind it. -/
def annotatedImage (behind : String) : AnnotatedDescriptor where
  mediaType := packageImageMediaTypeErofs
  digest := []
  size := 8192
  annotations :=
    [(offsetKey, "4096"), (rootHashKey, String.ofList (List.replicate 64 '0') ++ behind)]

theorem getDmVerityAnnotations_reads_annotatedImage :
    ReadAnnotations (annotatedImage "") ⟨List.replicate 32 0, [], 4096⟩ :=
  getDmVerityAnnotations_reads (annotatedImage "") _ (by decide) (by decide +kernel)

/-- A root hash with two letters behind it is accepted. -/
theorem not_getDmVerityAnnotations_exact :
    ¬ ∀ (descriptor : AnnotatedDescriptor) (details : DmVerityAnnotations),
      descriptor.size < 2 ^ 31 → getDmVerityAnnotations descriptor = .ok details →
        ExactAnnotations descriptor details := by
  intro hexact
  have hread : getDmVerityAnnotations (annotatedImage "zz") =
      .ok ⟨List.replicate 32 0, [], 4096⟩ := by decide +kernel
  obtain ⟨text, hmem, hlength, -⟩ := (hexact _ _ (by decide) hread).rootHash
  rcases List.mem_cons.mp hmem with hoffset | hrootHash
  · have hkeys : rootHashKey ≠ offsetKey := by decide
    exact absurd (congrArg Prod.fst hoffset) hkeys
  · obtain rfl := congrArg Prod.snd (List.mem_singleton.mp hrootHash)
    exact absurd hlength (by decide +kernel)

end OCIPackage

end Oci
