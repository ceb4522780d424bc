import Ralf.Core.Json

/-!
# The values of settings

`fromJson` converts what the JSON library has parsed to the library's own values, which
settings are kept as. Both sides are read as a `Json`, whose integers are exact. The parsed
document has signed and unsigned integers of 64 bits, and its values have only signed ones.

* `meaning_fromJson_iff`, the conversion keeps a document that has no integer from `2 ^ 63`
  on, and no other;
* `fromJson_faithful_iff`, and so two of them apart.
-/

/-- What the JSON library has parsed, by the type of the value. The members of an object are in
the order of their keys, each key once. -/
inductive JsonDocument (Double : Type)
  | null
  | boolean (b : Bool)
  | numberInteger (n : Int64)
  | numberUnsigned (n : UInt64)
  | numberFloat (x : Double)
  | string (s : String)
  | array (elements : List (JsonDocument Double))
  | object (members : List (String × JsonDocument Double))
  | binary (data : Bytes)
  | discarded

/-- `JSONValue`. -/
inductive JsonValue (Double : Type)
  | monostate
  | bool (b : Bool)
  | int64 (n : Int64)
  | double (x : Double)
  | string (s : String)
  | vector (elements : List (JsonValue Double))
  | map (members : List (String × JsonValue Double))

variable {Double : Type}

namespace JsonValue

mutual

/-- The JSON value that a setting's value says. -/
def meaning : JsonValue Double → Json
  | .monostate => .null
  | .bool b => .bool b
  | .int64 n => .integer n.toInt
  | .double _ => .real
  | .string s => .string s
  | .vector elements => .array (elementsMeaning elements)
  | .map members => .object (membersMeaning members)

def elementsMeaning : List (JsonValue Double) → List Json
  | [] => []
  | element :: rest => meaning element :: elementsMeaning rest

def membersMeaning : List (String × JsonValue Double) → List (String × Json)
  | [] => []
  | (key, value) :: rest => (key, meaning value) :: membersMeaning rest

end

end JsonValue

namespace JsonDocument

/-! ## The conversion -/

mutual

/-- `from_json`. -/
def fromJson : JsonDocument Double → JsonValue Double
  | .null => .monostate
  | .discarded => .monostate
  | .boolean b => .bool b
  | .numberInteger n => .int64 n
  | .numberUnsigned n => .int64 n.toInt64
  | .numberFloat x => .double x
  | .string s => .string s
  | .array elements => .vector (fromElements elements)
  | .object members => .map (fromMembers members)
  -- the default of the switch
  | .binary _ => .monostate

def fromElements : List (JsonDocument Double) → List (JsonValue Double)
  | [] => []
  | element :: rest => fromJson element :: fromElements rest

def fromMembers : List (String × JsonDocument Double) → List (String × JsonValue Double)
  | [] => []
  | (key, value) :: rest => (key, fromJson value) :: fromMembers rest

end

/-! ## What documents say -/

mutual

/-- The JSON value that a document says. -/
def meaning : JsonDocument Double → Json
  | .null => .null
  | .boolean b => .bool b
  | .numberInteger n => .integer n.toInt
  | .numberUnsigned n => .integer n.toNat
  | .numberFloat _ => .real
  | .string s => .string s
  | .array elements => .array (elementsMeaning elements)
  | .object members => .object (membersMeaning members)
  | .binary _ => .null
  | .discarded => .null

def elementsMeaning : List (JsonDocument Double) → List Json
  | [] => []
  | element :: rest => meaning element :: elementsMeaning rest

def membersMeaning : List (String × JsonDocument Double) → List (String × Json)
  | [] => []
  | (key, value) :: rest => (key, meaning value) :: membersMeaning rest

end

mutual

/-- A property of all nodes of a document. -/
def Everywhere (p : JsonDocument Double → Prop) : JsonDocument Double → Prop
  | .array elements => p (.array elements) ∧ EverywhereElements p elements
  | .object members => p (.object members) ∧ EverywhereMembers p members
  | document => p document

def EverywhereElements (p : JsonDocument Double → Prop) : List (JsonDocument Double) → Prop
  | [] => True
  | element :: rest => Everywhere p element ∧ EverywhereElements p rest

def EverywhereMembers (p : JsonDocument Double → Prop) :
    List (String × JsonDocument Double) → Prop
  | [] => True
  | (_, value) :: rest => Everywhere p value ∧ EverywhereMembers p rest

end

/-- A node of a document in a text without floating-point numbers. -/
def TextNode : JsonDocument Double → Prop
  | .numberFloat _ | .binary _ | .discarded => False
  | _ => True

/-- A node that is no integer from `2 ^ 63` on. -/
def FitsInt64 : JsonDocument Double → Prop
  | .numberUnsigned n => n.toNat < 2 ^ 63
  | _ => True

/-- The value that a document is converted to says what the document says. -/
def Preserved (document : JsonDocument Double) : Prop :=
  document.fromJson.meaning = document.meaning

/-! ## What the conversion keeps -/

theorem toInt_toInt64_iff (n : UInt64) : n.toInt64.toInt = n.toNat ↔ n.toNat < 2 ^ 63 := by
  have hlt := n.toNat_lt
  have hvalue : n.toInt64.toInt =
      if 2 * n.toNat < 2 ^ 64 then (n.toNat : Int) else n.toNat - 2 ^ 64 :=
    BitVec.toInt_eq_toNat_cond n.toBitVec
  rw [hvalue]
  split <;> omega

mutual

theorem preserved_iff (document : JsonDocument Double) (h : document.Everywhere TextNode) :
    document.Preserved ↔ document.Everywhere FitsInt64 := by
  unfold Preserved
  cases document with
  | null => simp [fromJson, meaning, JsonValue.meaning, Everywhere, FitsInt64]
  | boolean b => simp [fromJson, meaning, JsonValue.meaning, Everywhere, FitsInt64]
  | numberInteger n => simp [fromJson, meaning, JsonValue.meaning, Everywhere, FitsInt64]
  | numberUnsigned n =>
    simp [fromJson, meaning, JsonValue.meaning, Everywhere, FitsInt64, toInt_toInt64_iff]
  | numberFloat x => exact absurd h id
  | string s => simp [fromJson, meaning, JsonValue.meaning, Everywhere, FitsInt64]
  | array elements =>
    simp [fromJson, meaning, JsonValue.meaning, Everywhere, FitsInt64,
      elements_preserved_iff elements h.2]
  | object members =>
    simp [fromJson, meaning, JsonValue.meaning, Everywhere, FitsInt64,
      members_preserved_iff members h.2]
  | binary data => exact absurd h id
  | discarded => exact absurd h id

theorem elements_preserved_iff (elements : List (JsonDocument Double))
    (h : EverywhereElements TextNode elements) :
    JsonValue.elementsMeaning (fromElements elements) = elementsMeaning elements ↔
      EverywhereElements FitsInt64 elements := by
  cases elements with
  | nil => simp [fromElements, elementsMeaning, JsonValue.elementsMeaning, EverywhereElements]
  | cons element rest =>
    rw [fromElements, elementsMeaning, JsonValue.elementsMeaning, EverywhereElements,
      List.cons.injEq, elements_preserved_iff rest h.2]
    exact and_congr_left fun _ => preserved_iff element h.1

theorem members_preserved_iff (members : List (String × JsonDocument Double))
    (h : EverywhereMembers TextNode members) :
    JsonValue.membersMeaning (fromMembers members) = membersMeaning members ↔
      EverywhereMembers FitsInt64 members := by
  cases members with
  | nil => simp [fromMembers, membersMeaning, JsonValue.membersMeaning, EverywhereMembers]
  | cons member rest =>
    obtain ⟨key, value⟩ := member
    rw [fromMembers, membersMeaning, JsonValue.membersMeaning, EverywhereMembers,
      List.cons.injEq, members_preserved_iff rest h.2, Prod.mk.injEq, eq_self_iff_true, true_and]
    exact and_congr_left fun _ => preserved_iff value h.1

end

/-- Documents that say different things are converted to different values. -/
def KeptApart (document other : JsonDocument Double) : Prop :=
  document.meaning ≠ other.meaning → document.fromJson ≠ other.fromJson

theorem Preserved.keptApart {document other : JsonDocument Double} (h : document.Preserved)
    (hother : other.Preserved) : KeptApart document other := by
  intro hne heq
  refine hne ?_
  calc document.meaning = document.fromJson.meaning := h.symm
    _ = other.fromJson.meaning := by rw [heq]
    _ = other.meaning := hother

/-- Documents are kept as they are, and apart from each other, exactly if they have no integer
from `2 ^ 63` on. -/
theorem fromJson_faithful_iff (document other : JsonDocument Double)
    (h : document.Everywhere TextNode) (hother : other.Everywhere TextNode) :
    document.Preserved ∧ other.Preserved ∧ KeptApart document other ↔
      document.Everywhere FitsInt64 ∧ other.Everywhere FitsInt64 := by
  rw [← preserved_iff document h, ← preserved_iff other hother]
  constructor
  · rintro ⟨hkept, hkept', -⟩
    exact ⟨hkept, hkept'⟩
  · rintro ⟨hkept, hkept'⟩
    exact ⟨hkept, hkept', hkept.keptApart hkept'⟩

/-- A setting with numbers of both kinds, in an array in an object. -/
def limits : JsonDocument Unit :=
  .object [("enabled", .boolean true), ("range", .array [.numberInteger (-5), .numberUnsigned 7])]

/-- The theorem on a document and one of its elements. -/
theorem fromJson_faithful_iff_limits :
    limits.Preserved ∧ JsonDocument.Preserved (.numberInteger (-5) : JsonDocument Unit) ∧
        KeptApart limits (.numberInteger (-5)) ↔
      limits.Everywhere FitsInt64 ∧ Everywhere FitsInt64 (.numberInteger (-5) : JsonDocument Unit) :=
  fromJson_faithful_iff limits (.numberInteger (-5))
    (by simp [limits, Everywhere, EverywhereElements, EverywhereMembers, TextNode])
    (by simp [Everywhere, TextNode])

/-- The integer 18446744073709551615 is converted to what -1 is. -/
theorem not_fromJson_faithful :
    ¬ ∀ document other : JsonDocument Unit, document.Everywhere TextNode →
      other.Everywhere TextNode →
      document.Preserved ∧ other.Preserved ∧ KeptApart document other := by
  intro h
  obtain ⟨-, -, hapart⟩ := h (.numberUnsigned 18446744073709551615) (.numberInteger (-1))
    (by simp [Everywhere, TextNode]) (by simp [Everywhere, TextNode])
  have hsame : UInt64.toInt64 18446744073709551615 = -1 := by decide
  refine hapart (by simp [meaning]) ?_
  rw [fromJson, fromJson, hsame]

end JsonDocument
