import Ralf.Lib.Bytes

/-!
# JSON values

The values that the JSON library parses. The members of an object are in the order of their
keys, each key once. A real number is not looked at by anything here, so that it has no data.
-/

/-- A JSON value. -/
inductive Json
  | null
  | bool (b : Bool)
  | integer (n : Int)
  | real
  | string (s : String)
  | array (elements : List Json)
  | object (members : List (String × Json))
  deriving Repr

/-- The bytes of a string. -/
def Bytes.ofString (s : String) : Bytes := s.toUTF8.data.toList

namespace Json

/-- `find` of a key. -/
def find (key : String) : Json → Option Json
  | .object members => members.lookup key
  | _ => none

/-! ## Flattening -/

/-- A key as it stands in a path: `~` and `/` are escaped. -/
def escape (key : String) : String :=
  String.ofList <| key.toList.flatMap fun c =>
    if c = '~' then ['~', '0'] else if c = '/' then ['~', '1'] else [c]

/-- Assigns a value to a key of an object. -/
def assign (key : String) (value : Json) : List (String × Json) → List (String × Json)
  | [] => [(key, value)]
  | (other, old) :: rest =>
    if key = other then (key, value) :: rest
    else if key < other then (key, value) :: (other, old) :: rest
    else (other, old) :: assign key value rest

mutual

/-- Assigns the primitive values inside a value to their paths. An array or object without
elements counts as null. -/
def flattenValue (path : String) (result : List (String × Json)) : Json → List (String × Json)
  | .array [] => assign path .null result
  | .array (element :: rest) => flattenElements path 0 result (element :: rest)
  | .object [] => assign path .null result
  | .object (member :: rest) => flattenMembers path result (member :: rest)
  | value => assign path value result

def flattenElements (path : String) (index : Nat) (result : List (String × Json)) :
    List Json → List (String × Json)
  | [] => result
  | element :: rest =>
    flattenElements path (index + 1)
      (flattenValue (path ++ "/" ++ toString index) result element) rest

def flattenMembers (path : String) (result : List (String × Json)) :
    List (String × Json) → List (String × Json)
  | [] => result
  | (key, value) :: rest =>
    flattenMembers path (flattenValue (path ++ "/" ++ escape key) result value) rest

end

/-- The members of the flattened value. -/
def flatten (value : Json) : List (String × Json) := flattenValue "" [] value

end Json
