/-!
# UTF-8

`encode` writes characters as octets.  `decode` reads octets back and refuses everything `encode`
does not write: stray continuation octets, overlong forms, surrogates, values beyond the last code
point and forms cut short.  A refusal says where the faulty octets stand, how many there are and
what is wrong with them.
-/

namespace Courier.Text.Utf8

/-- What rules an octet sequence out. -/
inductive Cause where
  | invalidStart
  | invalidContinuation
  | unexpectedEnd
  deriving DecidableEq, Repr

def Cause.text : Cause → String
  | .invalidStart => "invalid start byte"
  | .invalidContinuation => "invalid continuation byte"
  | .unexpectedEnd => "unexpected end of data"

/-- The first faulty octets of a sequence: their position, the first of them, and their number. -/
structure Fault where
  position : Nat
  octet : UInt8
  count : Nat
  cause : Cause
  deriving DecidableEq, Repr

/-- Two lower-case hexadecimal digits. -/
def hexOctet (b : UInt8) : String :=
  String.ofList [Nat.digitChar (b.toNat / 16), Nat.digitChar (b.toNat % 16)]

def Fault.message (f : Fault) : String :=
  if f.count = 1 then
    s!"'utf-8' codec can't decode byte 0x{hexOctet f.octet} in position {f.position}: {f.cause.text}"
  else
    s!"'utf-8' codec can't decode bytes in position {f.position}-{f.position + f.count - 1}: {f.cause.text}"

def encode (s : List Char) : List UInt8 := s.flatMap String.utf8EncodeChar

/-- The octets 0x80 to 0xBF continue a character. -/
def isContinuation (b : UInt8) : Bool := b &&& 0xC0 == 0x80

/-- The six bits a continuation octet carries. -/
def payload (b : UInt8) : Nat := b.toNat % 64

/-- The second octet of a three-octet form, without overlong forms and surrogates. -/
def continuesThree (first second : UInt8) : Bool :=
  isContinuation second && !(first == 0xE0 && second < 0xA0) && !(first == 0xED && second ≥ 0xA0)

/-- The second octet of a four-octet form, without overlong forms and values that are too great. -/
def continuesFour (first second : UInt8) : Bool :=
  isContinuation second && !(first == 0xF0 && second < 0x90) && !(first == 0xF4 && second ≥ 0x90)

/-- Reads octets whose first stands at `position`. -/
def decodeFrom (position : Nat) : List UInt8 → Except Fault (List Char)
  | [] => .ok []
  | a :: rest =>
    let fault (count : Nat) (cause : Cause) : Except Fault (List Char) :=
      .error ⟨position, a, count, cause⟩
    if a < 0x80 then (decodeFrom (position + 1) rest).map (Char.ofNat a.toNat :: ·)
    else if a < 0xC2 then fault 1 .invalidStart
    else if a < 0xE0 then
      match rest with
      | [] => fault 1 .unexpectedEnd
      | b :: rest =>
        if !isContinuation b then fault 1 .invalidContinuation
        else
          let c := Char.ofNat (a.toNat % 32 * 64 + payload b)
          (decodeFrom (position + 2) rest).map (c :: ·)
    else if a < 0xF0 then
      match rest with
      | [] => fault 1 .unexpectedEnd
      | [b] => if continuesThree a b then fault 2 .unexpectedEnd else fault 1 .invalidContinuation
      | b :: c :: rest =>
        if !continuesThree a b then fault 1 .invalidContinuation
        else if !isContinuation c then fault 2 .invalidContinuation
        else
          let ch := Char.ofNat (a.toNat % 16 * 4096 + payload b * 64 + payload c)
          (decodeFrom (position + 3) rest).map (ch :: ·)
    else if a < 0xF5 then
      match rest with
      | [] => fault 1 .unexpectedEnd
      | [b] => if continuesFour a b then fault 2 .unexpectedEnd else fault 1 .invalidContinuation
      | [b, c] =>
        if !continuesFour a b then fault 1 .invalidContinuation
        else if isContinuation c then fault 3 .unexpectedEnd
        else fault 2 .invalidContinuation
      | b :: c :: d :: rest =>
        if !continuesFour a b then fault 1 .invalidContinuation
        else if !isContinuation c then fault 2 .invalidContinuation
        else if !isContinuation d then fault 3 .invalidContinuation
        else
          let ch := Char.ofNat
            (a.toNat % 8 * 262144 + payload b * 4096 + payload c * 64 + payload d)
          (decodeFrom (position + 4) rest).map (ch :: ·)
    else fault 1 .invalidStart

/-- The characters a sequence of octets stands for. -/
def decode (octets : List UInt8) : Except Fault (List Char) := decodeFrom 0 octets

end Courier.Text.Utf8
