import DeskCalc.Decimal.Digits

/-!
# Reading UTF-8

`Utf8.decode` reads octets as UTF-8 and says where and why they are not.  A lead octet determines how many octets
are owed and the bounds of the first of them, which rule out overlong forms, surrogates and numbers beyond the last
code point; every later octet lies in `0x80 … 0xBF`.  The octets of a broken character are reported up to the one
that breaks it.
-/

namespace DeskCalc.Utf8

inductive Defect where
  | invalidStart
  | invalidContinuation
  | unexpectedEnd
  deriving DecidableEq, Repr

/-- Octets that are not UTF-8: `count` octets from `position` on, of which `octet` is the first. -/
structure Error where
  defect : Defect
  position : Nat
  count : Nat
  octet : Nat
  deriving DecidableEq, Repr

def Defect.reason : Defect → String
  | .invalidStart => "invalid start byte"
  | .invalidContinuation => "invalid continuation byte"
  | .unexpectedEnd => "unexpected end of data"

def Error.message (e : Error) : String :=
  if e.count = 1 then
    let octet := String.ofList ((numeral 16 e.octet).leftpad 2 '0')
    s!"'utf-8' codec can't decode byte 0x{octet} in position {e.position}: {e.defect.reason}"
  else
    let last := e.position + e.count - 1
    s!"'utf-8' codec can't decode bytes in position {e.position}-{last}: {e.defect.reason}"

/-- What a lead octet announces: the octets owed, the bounds of the first of them, and its own payload. -/
structure Lead where
  owed : Nat
  least : Nat
  greatest : Nat
  payload : Nat

def lead? (b : Nat) : Option Lead :=
  if b < 0xC2 then none
  else if b < 0xE0 then some ⟨1, 0x80, 0xBF, b - 0xC0⟩
  else if b < 0xF0 then
    some ⟨2, if b = 0xE0 then 0xA0 else 0x80, if b = 0xED then 0x9F else 0xBF, b - 0xE0⟩
  else if b < 0xF5 then
    some ⟨3, if b = 0xF0 then 0x90 else 0x80, if b = 0xF4 then 0x8F else 0xBF, b - 0xF0⟩
  else none

/-- Reads the owed octets onto `payload`; a failure tells how many octets of the character are fine. -/
def tails (owed least greatest payload seen : Nat) (bytes : List UInt8) :
    Except (Defect × Nat) (Nat × List UInt8) :=
  match owed, bytes with
  | 0, bytes => .ok (payload, bytes)
  | _ + 1, [] => .error (.unexpectedEnd, seen)
  | owed + 1, b :: rest =>
    if least ≤ b.toNat ∧ b.toNat ≤ greatest then
      tails owed 0x80 0xBF (payload * 64 + (b.toNat - 0x80)) (seen + 1) rest
    else .error (.invalidContinuation, seen)

theorem length_of_tails {owed least greatest payload seen : Nat} {bytes : List UInt8} {r : Nat × List UInt8}
    (h : tails owed least greatest payload seen bytes = .ok r) : r.2.length ≤ bytes.length := by
  fun_induction tails owed least greatest payload seen bytes with
  | case1 =>
    cases h
    exact Nat.le_refl _
  | case2 => cases h
  | case3 _ _ _ _ _ _ _ _ ih =>
    have := ih h
    simp only [List.length_cons]
    omega
  | case4 => cases h

/-- The characters of UTF-8 octets that start at `position`. -/
def decodeFrom (position : Nat) (bytes : List UInt8) : Except Error (List Char) :=
  match bytes with
  | [] => .ok []
  | b :: rest =>
    if b.toNat < 0x80 then (Char.ofNat b.toNat :: ·) <$> decodeFrom (position + 1) rest
    else
      match lead? b.toNat with
      | none => .error ⟨.invalidStart, position, 1, b.toNat⟩
      | some lead =>
        match h : tails lead.owed lead.least lead.greatest lead.payload 1 rest with
        | .error (defect, seen) => .error ⟨defect, position, seen, b.toNat⟩
        | .ok (code, rest') => (Char.ofNat code :: ·) <$> decodeFrom (position + 1 + lead.owed) rest'
termination_by bytes.length
decreasing_by
  · simp
  · have := length_of_tails h
    simp only [List.length_cons] at this ⊢
    omega

def decode (bytes : List UInt8) : Except Error (List Char) :=
  decodeFrom 0 bytes

def encode (s : List Char) : List UInt8 :=
  s.flatMap String.utf8EncodeChar

end DeskCalc.Utf8
