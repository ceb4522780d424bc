import Ralf.Core.JsonValue

/-!
# Looking at a document

The type tests and conversions of the JSON library, on a document that it has parsed. A conversion
to a type that the document has not throws, and what is thrown is a text.
-/

variable {Double : Type}

namespace JsonDocument

def isString : JsonDocument Double → Bool
  | .string _ => true
  | _ => false

def isBoolean : JsonDocument Double → Bool
  | .boolean _ => true
  | _ => false

def isArray : JsonDocument Double → Bool
  | .array _ => true
  | _ => false

def isObject : JsonDocument Double → Bool
  | .object _ => true
  | _ => false

def isNumberInteger : JsonDocument Double → Bool
  | .numberInteger _ => true
  | .numberUnsigned _ => true
  | _ => false

def isNumber : JsonDocument Double → Bool
  | .numberFloat _ => true
  | document => document.isNumberInteger

/-- `get<std::string>` of a string. -/
def text : JsonDocument Double → String
  | .string s => s
  | _ => ""

/-- `get<bool>` of a boolean. -/
def truth : JsonDocument Double → Bool
  | .boolean b => b
  | _ => false

/-- What a loop over an array sees. -/
def elements : JsonDocument Double → List (JsonDocument Double)
  | .array elements => elements
  | _ => []

/-- `items` of an object. -/
def members : JsonDocument Double → List (String × JsonDocument Double)
  | .object members => members
  | _ => []

/-- `get<int>` of a number. `ofDouble` is the conversion of a floating-point number. -/
def int (ofDouble : Double → Int32) : JsonDocument Double → Int32
  | .numberInteger n => n.toInt32
  | .numberUnsigned n => n.toInt64.toInt32
  | .numberFloat x => ofDouble x
  | _ => 0

/-- `type_name`. -/
def typeName : JsonDocument Double → String
  | .null => "null"
  | .object _ => "object"
  | .array _ => "array"
  | .string _ => "string"
  | .boolean _ => "boolean"
  | .binary _ => "binary"
  | .discarded => "discarded"
  | .numberInteger _ | .numberUnsigned _ | .numberFloat _ => "number"

/-- What is thrown when a value has not the type that is asked for. -/
def typeError (wanted : String) (document : JsonDocument Double) : String :=
  "[json.exception.type_error.302] type must be " ++ wanted ++ ", but is " ++ document.typeName

/-- `get<std::string>`. -/
def getString (document : JsonDocument Double) : Except String String :=
  if document.isString then .ok document.text else .error (document.typeError "string")

/-- `get<std::vector<std::string>>`. -/
def getStrings (document : JsonDocument Double) : Except String (List String) :=
  if document.isArray then document.elements.mapM getString
  else .error (document.typeError "array")

/-- `value` with a string for the default. -/
def stringValue (document : JsonDocument Double) (key : String) : Except String String :=
  match document.members.lookup key with
  | some value => value.getString
  | none => .ok ""

end JsonDocument
