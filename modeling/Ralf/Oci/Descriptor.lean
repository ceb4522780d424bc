import Ralf.Core.Json
import Ralf.Oci.ArchiveImageLayerReader

/-!
# Parsing OCI descriptors

A descriptor names a blob by its digest and size, with a media type and annotations. The digest
is kept as the 64 hexadecimal digits that stand behind `sha256:`.
-/

namespace Oci

/-! ## Digests -/

def validateSha256Digest (digest : Bytes) : Bool := digest.length = 64 && digest.all isHexDigit

/-- The digits of a digest with its prefix. -/
def validateDigest (digest : String) : Option Bytes :=
  let bytes := Bytes.ofString digest
  if bytes.length ≠ 71 then none
  else if ¬(Bytes.ofString "sha256:").isPrefixOf bytes then none
  else
    let stripped := bytes.drop 7
    if ¬validateSha256Digest stripped then none else some stripped

/-! ## Descriptors -/

/-- A descriptor with its annotations, in the order of their keys. -/
structure AnnotatedDescriptor extends OCIDescriptor where
  annotations : List (String × String)
  deriving DecidableEq, Repr

/-- The fields of a descriptor that are parsed so far. -/
structure DescriptorFields where
  mediaType : String
  digest : String
  size : Int
  annotations : List (String × String)

/-- An error of `OCIDescriptor::parse`. -/
def invalidDescriptor (what : String) : Error :=
  .ralf .packageContentsInvalid s!"Invalid OCI descriptor - {what}"

/-- The string in a value. -/
def stringOf (error : Error) : Json → Result String
  | .string s => .ok s
  | _ => .error error

/-- The strings of an object's members. -/
def annotationsOf : List (String × Json) → Result (List (String × String))
  | [] => .ok []
  | (key, .string value) :: rest => (annotationsOf rest).map ((key, value) :: ·)
  | _ :: _ => .error (invalidDescriptor "annotation value is not a string")

/-- The loop of `OCIDescriptor::parse` over the members. `data` and `urls` are only checked: nothing
reads them. -/
def parseMember (decodeBase64 : String → Option Bytes) (fields : DescriptorFields) :
    String × Json → Result DescriptorFields
  | (key, value) =>
    if key = "mediaType" then do
      let mediaType ← stringOf (invalidDescriptor "mediaType is not a string") value
      return { fields with mediaType := mediaType }
    else if key = "digest" then do
      let digest ← stringOf (invalidDescriptor "digest is not a string") value
      return { fields with digest := digest }
    else if key = "size" then
      match value with
      | .integer size => .ok { fields with size := size.bmod (2 ^ 64) }
      | _ => .error (invalidDescriptor "size is not an integer")
    else if key = "data" then do
      let data ← stringOf (invalidDescriptor "data is not a string") value
      if (decodeBase64 data).isNone then
        throw (invalidDescriptor "data is not a valid base64 string")
      return fields
    else if key = "urls" then
      match value with
      | .array urls => do
        let _ ← urls.mapM (stringOf (invalidDescriptor "url value is not a string"))
        return fields
      | _ => .error (invalidDescriptor "urls is not a JSON array")
    else if key = "annotations" then
      match value with
      | .object members => do
        let annotations ← annotationsOf members
        return { fields with annotations := annotations }
      | _ => .error (invalidDescriptor "annotations is not a JSON object")
    else .ok fields

/-- `OCIDescriptor::parse`. -/
def AnnotatedDescriptor.parse (decodeBase64 : String → Option Bytes) (json : Json) :
    Result AnnotatedDescriptor :=
  match json with
  | .object members => do
    let fields ← members.foldlM (parseMember decodeBase64) ⟨"", "", -1, []⟩
    match validateDigest fields.digest with
    | none =>
      let digest := Bytes.cString (Bytes.ofString fields.digest)
      .error (invalidDescriptor s!"invalid digest '{digest}'")
    | some digest =>
      if fields.size < 0 then .error (invalidDescriptor "invalid size")
      else if fields.size > 2 ^ 31 - 1 then .error (invalidDescriptor "size is too large")
      else .ok ⟨⟨fields.mediaType, digest, fields.size.toNat⟩, fields.annotations⟩
  | _ => .error (invalidDescriptor "not a JSON object")

end Oci
