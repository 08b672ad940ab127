import DeskCalc.Decimal.Shortest
import DeskCalc.Host
import DeskCalc.Text.Quoted

/-!
# JSON values

Values of settings files.  Integers are exact and numbers with a fraction or an exponent are doubles.  The members
of an object keep their order, and a key occurs once: `Json.setMember` replaces the value of a key in its place.
Strings and keys are texts, because they may hold lone surrogates.

Not every value can be shown in a message (`Json.shown`): an integer may have too many digits for it, and values may
lie too deep within one another for the host.
-/

namespace DeskCalc

inductive Json where
  | null
  | bool (b : Bool)
  | integer (n : Int)
  | float (x : Double)
  | string (s : Text)
  | array (items : List Json)
  | object (members : List (Text × Json))
  deriving Repr

namespace Json

instance : Inhabited Json :=
  ⟨null⟩

/-- The kinds of values. -/
inductive Kind where
  | null | bool | integer | float | string | array | object
  deriving DecidableEq, Repr

def kind : Json → Kind
  | null => .null
  | bool _ => .bool
  | integer _ => .integer
  | float _ => .float
  | string _ => .string
  | array _ => .array
  | object _ => .object

/-- The short name of a kind, as messages use it. -/
def Kind.name : Kind → String
  | .null => "NoneType"
  | .bool => "bool"
  | .integer => "int"
  | .float => "float"
  | .string => "str"
  | .array => "list"
  | .object => "dict"

/-- The name of a kind in full. -/
def Kind.title : Kind → String
  | .null => "null"
  | .bool => "boolean"
  | .integer => "integer"
  | .float => "number"
  | .string => "string"
  | .array => "array"
  | .object => "object"

/-- Whether a value counts as true: neither null nor false nor zero nor empty. -/
def truthy : Json → Bool
  | null => false
  | bool b => b
  | integer n => n != 0
  | float x => !x.isZero
  | string s => !s.isEmpty
  | array items => !items.isEmpty
  | object members => !members.isEmpty

def isNull : Json → Bool
  | null => true
  | _ => false

/-- The members with `key` set to `value`: in its place if the key is there, else at the end. -/
def setMember (key : Text) (value : Json) : List (Text × Json) → List (Text × Json)
  | [] => [(key, value)]
  | m :: rest => if m.1 = key then (key, value) :: rest else m :: setMember key value rest

/-! ### Values in messages -/

/-- Why a value cannot be shown in a message. -/
inductive ShowError where
  | tooManyDigits
  | tooDeep
  deriving DecidableEq, Repr

def ShowError.message : ShowError → String
  | tooManyDigits =>
    s!"Exceeds the limit ({maxDigits} digits) for integer string conversion; " ++
      "use sys.set_int_max_str_digits() to increase the limit"
  | tooDeep => "maximum recursion depth exceeded while getting the repr of an object"

/-- An integer in a message. -/
def integerForm (n : Int) : Except ShowError (List Char) :=
  let digits := numeral 10 n.natAbs
  if maxDigits < digits.length then .error .tooManyDigits
  else .ok (if n < 0 then '-' :: digits else digits)

def boolForm (b : Bool) : List Char :=
  if b then ['T', 'r', 'u', 'e'] else ['F', 'a', 'l', 's', 'e']

mutual

/-- A value in a message, with quoted strings and with room for `depth` levels of values.  What is met first from the
left decides why there is no form. -/
def form (depth : Nat) (v : Json) : Except ShowError (List Char) :=
  match depth, v with
  | 0, _ => .error .tooDeep
  | _ + 1, null => .ok ['N', 'o', 'n', 'e']
  | _ + 1, bool b => .ok (boolForm b)
  | _ + 1, integer n => integerForm n
  | _ + 1, float x => .ok x.text
  | _ + 1, string s => .ok (quoted s)
  | depth + 1, array items => do
    let forms ← itemForms depth items
    return '[' :: forms ++ [']']
  | depth + 1, object members => do
    let forms ← memberForms depth members
    return '\x7b' :: forms ++ ['\x7d']

def itemForms (depth : Nat) (items : List Json) : Except ShowError (List Char) :=
  match items with
  | [] => .ok []
  | [v] => form depth v
  | v :: rest => do
    let first ← form depth v
    let forms ← itemForms depth rest
    return first ++ [',', ' '] ++ forms

def memberForms (depth : Nat) (members : List (Text × Json)) : Except ShowError (List Char) :=
  match members with
  | [] => .ok []
  | [(k, v)] => do
    let value ← form depth v
    return quoted k ++ [':', ' '] ++ value
  | (k, v) :: rest => do
    let value ← form depth v
    let forms ← memberForms depth rest
    return quoted k ++ [':', ' '] ++ value ++ [',', ' '] ++ forms

end

/-- A value shown in a message: a string as it is, all else in its form. -/
def shown [Host] : Json → Except ShowError Text
  | string s => .ok s
  | v => (form (Host.showingDepth + 1) v).map Text.ofChars

end Json

end DeskCalc
