import BlackBull.StructuredFields
import Mathlib.Data.Rat.Floor

/-!
# Serialising structured fields

The serialisers of `structured_fields.py`, which write an item, a list or a dictionary as ASCII
text or refuse it with `ValueError`.
-/

namespace BlackBull.StructuredFields

open ByteString

/-- The `ValueError`s of the serialisers. -/
inductive Refusal where
  | invalidKey
  | integerOutOfRange
  | cannotSerializeDecimal
  | decimalTooLong
  | invalidCharacterInString
  | invalidToken
  | displayStringNotUnicode
  deriving DecidableEq

/-- Rounding to the nearest, halves to the even side. -/
def roundHalfEven (value : ℚ) : ℕ :=
  let whole := ⌊value⌋.toNat
  if value - whole < 1 / 2 then whole
  else if value - whole = 1 / 2 ∧ whole % 2 = 0 then whole
  else whole+1

def serInteger (value : ℤ) : Except Refusal Bytes :=
  if -999999999999999≤value ∧ value≤999999999999999 then
    .ok ((if value<0 then [hyphen] else [])++toDigits 10 value.natAbs)
  else .error .integerOutOfRange

def threeDigits (n : ℕ) : Bytes :=
  [digitOctet (n / 100 % 10),digitOctet (n / 10 % 10),digitOctet (n % 10)]

/-- `text.rstrip('0')`, and a zero after the point if nothing else is left there. -/
def trimFraction (fraction : Bytes) : Bytes :=
  let kept := (fraction.reverse.dropWhile (· = 48)).reverse
  if kept=[] then [48] else kept

/-- The quantized value has the digits of `thousandths`; `quantize` itself fails on more than
twenty-eight of them. -/
def serDecimal (value : ℚ) : Except Refusal Bytes :=
  let thousandths := roundHalfEven (|value| * 1000)
  if 10^28≤thousandths then .error .cannotSerializeDecimal
  else if 12+3<(toDigits 10 thousandths).length then .error .decimalTooLong
  else .ok ((if value < 0 then [hyphen] else [])++toDigits 10 (thousandths / 1000) ++
    dot::trimFraction (threeDigits (thousandths % 1000)))

def serStringBody : Bytes → Except Refusal Bytes
  | [] => .ok []
  | c::value => do
    if isPrintable c then
      let rest ← serStringBody value
      return (if c=dquote ∨ c=backslash then [backslash,c] else [c])++rest
    else throw .invalidCharacterInString

def serString (value : Bytes) : Except Refusal Bytes := do
  return dquote::(← serStringBody value)++[dquote]

/-- A word that begins and goes on with such characters. -/
def serWord (start char : UInt8 → Bool) (refusal : Refusal) (value : Bytes) :
    Except Refusal Bytes :=
  if value.head?.any start ∧ value.all char then .ok value else .error refusal

def serKey : Bytes → Except Refusal Bytes := serWord isKeyStart isKeyChar .invalidKey

def serToken : Bytes → Except Refusal Bytes := serWord isTokenStart isTokenChar .invalidToken

/-- `f'%{byte:02x}'` for the octets that do not stand for themselves. -/
def serOctet (c : UInt8) : Bytes :=
  if c=percent ∨ c=dquote ∨ !isPrintable c then
    [percent,digitOctet (c.toNat / 16),digitOctet (c.toNat % 16)]
  else [c]

section Serialisers

variable {δ : Type} (codec : Codec δ)

def serDisplayString (value : δ) : Except Refusal Bytes :=
  match codec.utf8encode value with
  | none => .error .displayStringNotUnicode
  | some octets => .ok ([percent,dquote]++octets.flatMap serOctet++[dquote])

def serBareItem : BareItem δ → Except Refusal Bytes
  | .boolean value => .ok [question,if value then 49 else 48]
  | .integer value => serInteger value
  | .decimal value => serDecimal value
  | .token value => serToken value
  | .displayString value => serDisplayString codec value
  | .string value => serString value
  | .bytes value => .ok (colon::codec.b64encode value++[colon])
  | .date seconds => do return commercialAt::(← serInteger seconds)

/-- `value is True`. -/
def BareItem.isTrue : BareItem δ → Bool
  | .boolean value => value
  | _ => false

/-- The value of a parameter, which is left out when it is true. -/
def serGiven (value : BareItem δ) : Except Refusal Bytes := do
  if value.isTrue then return [] else return equals::(← serBareItem codec value)

def serParameters : List (Bytes × BareItem δ) → Except Refusal Bytes
  | [] => .ok []
  | (key,value)::params => do
    let name ← serKey key
    let given ← serGiven codec value
    let rest ← serParameters params
    return semicolon::name++given++rest

def serItem (item : Item δ) : Except Refusal Bytes := do
  return (← serBareItem codec item.1)++(← serParameters codec item.2.items)

def serItemOrInnerList : Member δ → Except Refusal Bytes
  | .item item => serItem codec item
  | .innerList (items,params) => do
    let inner ← items.mapM (serItem codec)
    return leftParen::[space].intercalate inner ++
      rightParen::(← serParameters codec params.items)

def serEntry (key : Bytes) (member : Member δ) : Except Refusal Bytes := do
  let name ← serKey key
  match member with
  | .item (bare,params) =>
    if bare.isTrue then return name++(← serParameters codec params.items)
    else return name++equals::(← serItem codec (bare,params))
  | .innerList inner => return name++equals::(← serItemOrInnerList codec (.innerList inner))

def serializeItem (item : Item δ) : Except Refusal Bytes := serItem codec item

def serializeList (members : List (Member δ)) : Except Refusal Bytes := do
  return [comma,space].intercalate (← members.mapM (serItemOrInnerList codec))

def serializeDictionary (members : Table (Member δ)) : Except Refusal Bytes := do
  return [comma,space].intercalate (← members.items.mapM fun entry =>
    serEntry codec entry.1 entry.2)

end Serialisers

end BlackBull.StructuredFields
