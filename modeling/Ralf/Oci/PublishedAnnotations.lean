import Ralf.Lib.Fields
import Ralf.Oci.DmVerityAnnotations

/-!
# Published annotations

The annotations of an EROFS image layer as they are written: the root hash and the salt in
hexadecimal digits, and the offset of the hashes in decimal ones. `getDmVerityAnnotations_written`:
they are read back as they were, whatever other annotations there are, and in any order.
-/

namespace Oci

open Fields Numeral OCIPackage

/-! ## Texts -/

/-- The bytes of a text of ASCII characters. -/
theorem ofString_ofList {text : List Char} (h : ∀ c ∈ text, c.toNat < 128) :
    Bytes.ofString (String.ofList text) = text.map fun c => UInt8.ofNat c.toNat := by
  have hutf8 : (String.ofList text).toUTF8 = text.utf8Encode := String.toByteArray_ofList
  rw [Bytes.ofString, hutf8, List.utf8Encode, List.toList_data_toByteArray]
  induction text with
  | nil => rfl
  | cons c text ih =>
    obtain ⟨hc, htext⟩ := List.forall_mem_cons.mp h
    have hsize : c.utf8Size = 1 :=
      Char.utf8Size_eq_one_iff.mpr (UInt32.le_iff_toNat_le.mpr (Nat.le_of_lt_succ hc))
    rw [List.flatMap_cons, String.utf8EncodeChar_eq_singleton hsize, ih htext String.toByteArray_ofList]
    rfl

theorem toNat_of_mem_hex {c : Char} {bytes : Bytes} (h : c ∈ hex bytes) : c.toNat < 128 := by
  have hall : hexChars.all (·.toNat < 128) = true := by decide
  simpa using List.all_eq_true.mp hall c (mem_hexChars_of_mem_hex h)

theorem toNat_of_mem_decimal {c : Char} {n : Nat} (h : c ∈ decimal n) :
    48 ≤ c.toNat ∧ c.toNat < 58 := by
  have hdigit := isDigit_of_mem_decimal h
  simp only [Char.isDigit, Bool.and_eq_true, decide_eq_true_eq, UInt32.le_iff_toNat_le] at hdigit
  exact ⟨hdigit.1, Nat.lt_succ_of_le hdigit.2⟩

/-- Two digits are read as the byte that they were written for. -/
theorem hexStringToBytes_digits (byte : UInt8) (rest : Bytes) :
    hexStringToBytes ((hexDigits byte).map (fun c => UInt8.ofNat c.toNat) ++ rest) =
      byte :: hexStringToBytes rest := by
  have hall : ∀ n : Fin 256, ∃ high low,
      (hexDigits (UInt8.ofNat n)).map (fun c => UInt8.ofNat c.toNat) = [high, low] ∧
        (isHexDigit high && isHexDigit low) = true ∧
        (hexDigitToByte high <<< 4 ||| hexDigitToByte low) = UInt8.ofNat n := by
    intro n
    refine ⟨_, _, rfl, ?_⟩
    revert n
    decide +kernel
  obtain ⟨high, low, hdigits, hhex, hbyte⟩ := hall ⟨byte.toNat, byte.toNat_lt⟩
  rw [UInt8.ofNat_toNat] at hdigits hbyte
  rw [hdigits, List.cons_append, List.cons_append, List.nil_append, hexStringToBytes, if_pos hhex,
    hbyte]

theorem hexStringToBytes_hex (bytes : Bytes) :
    hexStringToBytes (Bytes.ofString (String.ofList (hex bytes))) = bytes := by
  rw [ofString_ofList fun c hc => toNat_of_mem_hex hc]
  induction bytes with
  | nil => rfl
  | cons byte rest ih =>
    rw [hex, List.flatMap_cons, ← hex, List.map_append, hexStringToBytes_digits, ih]

theorem strtoul_decimal {n : Nat} (hn : n < 2 ^ 64) :
    (strtoul 10 (Bytes.ofString (String.ofList (decimal n)))).toNat = n := by
  have hascii : ∀ c ∈ decimal n, c.toNat < 128 := fun c hc =>
    Nat.lt_trans (toNat_of_mem_decimal hc).2 (by decide)
  have hvalue : Nat.ofDigitChars 10 (decimal n) 0 = n := Nat.ofDigitChars_ten_toDigits
  rw [ofString_ofList hascii, strtoul,
    read_digitChars (decimal_ne_nil n) fun c hc => toNat_of_mem_decimal hc, Option.map_some,
    Option.getD_some, hvalue, toNat_toUInt64 (Nat.not_le.mpr hn), if_neg Bool.false_ne_true]

/-! ## Annotations -/

def saltKey : String := "org.rdk.package.content.dmverity.salt"

/-- A value that only one key writes, read behind a list of distinct keys. -/
theorem foldl_write {α β κ : Type} {step : β → κ × α → β} {γ : Type} {get : β → γ} {key : κ}
    {read : α → γ} (hwrite : ∀ state value, get (step state (key, value)) = read value)
    (hkeep : ∀ state other value, other ≠ key → get (step state (other, value)) = get state)
    {members : List (κ × α)} (hkeys : (members.map Prod.fst).Nodup) {value : α}
    (hmem : (key, value) ∈ members) (state : β) :
    get (members.foldl step state) = read value := by
  have hrest : ∀ (rest : List (κ × α)) (state : β), key ∉ rest.map Prod.fst →
      get (rest.foldl step state) = get state := by
    intro rest
    induction rest with
    | nil => exact fun _ _ => rfl
    | cons head rest ih =>
      intro state hnot
      rw [List.map_cons, List.mem_cons, not_or] at hnot
      rw [List.foldl_cons, ih _ hnot.2]
      exact hkeep state head.1 head.2 (Ne.symm hnot.1)
  induction members generalizing state with
  | nil => exact absurd hmem List.not_mem_nil
  | cons head members ih =>
    rw [List.map_cons, List.nodup_cons] at hkeys
    rw [List.foldl_cons]
    rcases List.mem_cons.mp hmem with rfl | hmem
    · rw [hrest _ _ hkeys.1, hwrite]
    · exact ih hkeys.2 hmem _

/-- An annotation leaves the fields of the other keys as they are. -/
theorem dmVerityField_keeps (details : DmVerityAnnotations) (key value : String) :
    (key ≠ rootHashKey → (dmVerityField details (key, value)).rootHash = details.rootHash) ∧
    (key ≠ saltKey → (dmVerityField details (key, value)).salt = details.salt) ∧
    (key ≠ offsetKey →
      (dmVerityField details (key, value)).hashesOffset = details.hashesOffset) := by
  unfold dmVerityField rootHashKey saltKey offsetKey
  dsimp only
  split_ifs with hrootHash hsalt hoffset
  · exact ⟨fun hne => absurd hrootHash hne, fun _ => rfl, fun _ => rfl⟩
  · exact ⟨fun _ => rfl, fun hne => absurd hsalt hne, fun _ => rfl⟩
  · exact ⟨fun _ => rfl, fun _ => rfl, fun hne => absurd hoffset hne⟩
  · exact ⟨fun _ => rfl, fun _ => rfl, fun _ => rfl⟩

/-- The annotations of an image, as they are written. -/
structure Written (descriptor : AnnotatedDescriptor) (details : DmVerityAnnotations) : Prop where
  mediaType : descriptor.mediaType = packageImageMediaTypeErofs
  keys : (descriptor.annotations.map Prod.fst).Nodup
  rootHash : (rootHashKey, String.ofList (hex details.rootHash)) ∈ descriptor.annotations
  salt : (saltKey, String.ofList (hex details.salt)) ∈ descriptor.annotations
  offset : (offsetKey, String.ofList (decimal details.hashesOffset)) ∈ descriptor.annotations
  rootHash_length : details.rootHash.length = 32
  salt_length : details.salt.length ≤ 255
  offset_min : minErofsImageSize ≤ details.hashesOffset
  offset_max : details.hashesOffset ≤ maxErofsImageSize
  inside : details.hashesOffset + minDmVerityImageSize ≤ descriptor.size
  size_lt : descriptor.size < 2 ^ 64

/-- They are read back. -/
theorem getDmVerityAnnotations_written {descriptor : AnnotatedDescriptor}
    {details : DmVerityAnnotations} (h : Written descriptor details) :
    getDmVerityAnnotations descriptor = .ok details := by
  have hmin := h.offset_min
  have hmax := h.offset_max
  have hinside := h.inside
  have hread : descriptor.annotations.foldl dmVerityField { hashesOffset := 2 ^ 64 - 1 } =
      details := by
    have hrootHash := @foldl_write _ _ _ dmVerityField _ DmVerityAnnotations.rootHash rootHashKey
      (fun text => hexStringToBytes (Bytes.ofString text)) (fun _ _ => rfl)
      (fun details key value => (dmVerityField_keeps details key value).1) _ h.keys _ h.rootHash
      { hashesOffset := 2 ^ 64 - 1 }
    have hsalt := @foldl_write _ _ _ dmVerityField _ DmVerityAnnotations.salt saltKey
      (fun text => hexStringToBytes (Bytes.ofString text)) (fun _ _ => rfl)
      (fun details key value => (dmVerityField_keeps details key value).2.1) _ h.keys _ h.salt
      { hashesOffset := 2 ^ 64 - 1 }
    have hoffset := @foldl_write _ _ _ dmVerityField _ DmVerityAnnotations.hashesOffset offsetKey
      (fun text => (strtoul 10 (Bytes.ofString text)).toNat) (fun _ _ => rfl)
      (fun details key value => (dmVerityField_keeps details key value).2.2) _ h.keys _ h.offset
      { hashesOffset := 2 ^ 64 - 1 }
    rw [hexStringToBytes_hex] at hrootHash hsalt
    rw [strtoul_decimal (Nat.lt_of_le_of_lt hmax (by decide))] at hoffset
    generalize descriptor.annotations.foldl dmVerityField { hashesOffset := 2 ^ 64 - 1 } = read at *
    cases read
    cases details
    cases hrootHash
    cases hsalt
    cases hoffset
    rfl
  have hlimit : ¬details.hashesOffset > wrapSub64 descriptor.size minDmVerityImageSize := by
    rw [wrapSub64_of_le (Nat.le_trans (Nat.le_add_left _ _) hinside) h.size_lt]
    exact Nat.not_lt.mpr (Nat.le_sub_of_add_le hinside)
  unfold getDmVerityAnnotations
  rw [if_neg (not_not.mpr h.mediaType), hread]
  dsimp only
  rw [if_neg (not_not.mpr h.rootHash_length),
    if_neg (not_or.mpr ⟨Nat.not_lt.mpr hmin, Nat.not_lt.mpr hmax⟩), if_neg hlimit,
    if_neg (Nat.not_lt.mpr h.salt_length)]

end Oci
