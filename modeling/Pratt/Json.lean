set_option autoImplicit false

/-!
# JSON values

The values of the JSON data format. The fields of an object keep their order,
and numbers keep the way in which they were written.
-/

namespace Pratt

/-- A JSON value. -/
inductive Json where
  /-- The value `null`. -/
  | null
  /-- A truth value. -/
  | bool (truth : Bool)
  /-- A number as it is written. -/
  | number (written : String)
  /-- A string. -/
  | text (content : String)
  /-- An array. -/
  | list (items : List Json)
  /-- An object. -/
  | object (fields : List (String × Json))
  deriving Repr, Inhabited

namespace Json

/-- The characters that numbers and the names of constants are written with. -/
def isBareChar (c : Char) : Bool := c.isAlphanum || c == '+' || c == '-' || c == '.'

/-- What follows one or more digits, if a text starts so. -/
def afterDigits? : List Char → Option (List Char)
  | [] => none
  | c :: rest => if c.isDigit then some (rest.dropWhile Char.isDigit) else none

/-- What follows the integral digits of a number, which start with 0 only if
there is no other. -/
def afterIntegral? : List Char → Option (List Char)
  | '0' :: rest => some rest
  | rest => afterDigits? rest

/-- What follows the fraction of a number, which may be missing. -/
def afterFraction? : List Char → Option (List Char)
  | '.' :: rest => afterDigits? rest
  | rest => some rest

/-- What follows the sign of an exponent, which may be missing. -/
def afterSign : List Char → List Char
  | '+' :: rest => rest
  | '-' :: rest => rest
  | rest => rest

/-- What follows the exponent of a number, which may be missing. -/
def afterExponent? : List Char → Option (List Char)
  | 'e' :: rest => afterDigits? (afterSign rest)
  | 'E' :: rest => afterDigits? (afterSign rest)
  | rest => some rest

/-- What follows the minus of a number, which may be missing. -/
def afterMinus : List Char → List Char
  | '-' :: rest => rest
  | rest => rest

/-- Whether a text is a number as JSON writes it. -/
def isNumber (text : List Char) : Bool :=
  (afterIntegral? (afterMinus text)).bind afterFraction? |>.bind
    afterExponent? |> (· == some [])

/-- The value that a text without quotes stands for. -/
def ofBare? (text : String) : Option Json :=
  if text = "null" then some .null
  else if text = "true" then some (.bool true)
  else if text = "false" then some (.bool false)
  else if isNumber text.toList then some (.number text)
  else none

end Json

end Pratt
