import BlackBull.StructuredFields

/-!
# The language of structured fields

Section 4.2 of RFC 9651 as a relation between texts and values. Nothing here mentions a parser or a
position. What a repeated key does is in `Table.ofPairs`: the place of the first, the value of the
last.
-/

namespace BlackBull.StructuredFields

open ByteString

/-- A word that begins and goes on with such characters. -/
structure IsWord (start char : UInt8 → Bool) (text : Bytes) : Prop where
  starts : text.head?.any start=true
  chars : ∀ c∈text,char c=true

abbrev IsKey : Bytes → Prop := IsWord isKeyStart isKeyChar

abbrev IsToken : Bytes → Prop := IsWord isTokenStart isTokenChar

structure IsDigits (limit : ℕ) (text : Bytes) : Prop where
  digits : ∀ c∈text,isDigit c=true
  ne_nil : text≠[]
  length_le : text.length≤limit

def IsSpaces (text : Bytes) : Prop := ∀ c∈text,c=space

/-- Optional whitespace: spaces and tabs. -/
def IsOws (text : Bytes) : Prop := ∀ c∈text,isOws c=true

def signText (negative : Bool) : Bytes := if negative then [hyphen] else []

inductive NumberText : Bytes → Number → Prop
  | integer (negative : Bool) {digits : Bytes} (hdigits : IsDigits 15 digits) :
      NumberText (signText negative++digits)
        (.integer (signed negative (ofDigits 10 digits : ℤ)))
  | decimal (negative : Bool) {whole fraction : Bytes} (hwhole : IsDigits 12 whole)
      (hfraction : IsDigits 3 fraction) :
      NumberText (signText negative++(whole++dot::fraction))
        (.decimal (signed negative
          ((ofDigits 10 (whole++fraction) : ℚ) / 10^fraction.length)))

inductive StringText : Bytes → Bytes → Prop
  | nil : StringText [] []
  | plain {c : UInt8} {text value : Bytes} (hprintable : isPrintable c=true)
      (hquote : c≠dquote) (hbackslash : c≠backslash) (htext : StringText text value) :
      StringText (c::text) (c::value)
  | escaped {c : UInt8} {text value : Bytes} (hc : c=dquote ∨ c=backslash)
      (htext : StringText text value) : StringText (backslash::c::text) (c::value)

/-- What stands between the quotes of a display string, and the octets it is the UTF-8 text
of. -/
inductive DisplayText : Bytes → Bytes → Prop
  | nil : DisplayText [] []
  | plain {c : UInt8} {text octets : Bytes} (hprintable : isPrintable c=true)
      (hpercent : c≠percent) (hquote : c≠dquote) (htext : DisplayText text octets) :
      DisplayText (c::text) (c::octets)
  | escaped {high low : UInt8} {text octets : Bytes} (hhigh : isLowerHex high=true)
      (hlow : isLowerHex low=true) (htext : DisplayText text octets) :
      DisplayText (percent::high::low::text)
        (UInt8.ofNat (ofDigits 16 [high,low])::octets)

variable {α δ : Type} (codec : Codec δ)

inductive BareItemText : Bytes → BareItem δ → Prop
  | number {text : Bytes} {number : Number} (htext : NumberText text number) :
      BareItemText text number.toItem
  | string {text value : Bytes} (htext : StringText text value) :
      BareItemText (dquote::(text++[dquote])) (.string value)
  | token {text : Bytes} (htext : IsToken text) : BareItemText text (.token text)
  | bytes {text octets : Bytes} (htext : ∀ c∈text,isBase64Char c=true)
      (hdecode : codec.b64decode text=some octets) :
      BareItemText (colon::(text++[colon])) (.bytes octets)
  | boolean (value : Bool) : BareItemText [question,if value then 49 else 48] (.boolean value)
  | date {text : Bytes} {seconds : ℤ} (htext : NumberText text (.integer seconds)) :
      BareItemText (commercialAt::text) (.date seconds)
  | displayString {text octets : Bytes} {value : δ} (htext : DisplayText text octets)
      (hdecode : codec.utf8decode octets=some value) :
      BareItemText (percent::dquote::(text++[dquote])) (.displayString value)

namespace Table

/-- Keys and values entered one after the other. -/
def setAll (table : Table α) (pairs : List (Bytes × α)) : Table α :=
  pairs.foldl (fun table pair => table.set pair.1 pair.2) table

def ofPairs (pairs : List (Bytes × α)) : Table α := empty.setAll pairs

end Table

inductive ParametersText : Bytes → List (Bytes × BareItem δ) → Prop
  | nil : ParametersText [] []
  | flag {spaces key text : Bytes} {params : List (Bytes × BareItem δ)}
      (hspaces : IsSpaces spaces) (hkey : IsKey key) (htext : ParametersText text params) :
      ParametersText (semicolon::(spaces++(key++text))) ((key,.boolean true)::params)
  | valued {spaces key value text : Bytes} {bare : BareItem δ}
      {params : List (Bytes × BareItem δ)} (hspaces : IsSpaces spaces) (hkey : IsKey key)
      (hvalue : BareItemText codec value bare) (htext : ParametersText text params) :
      ParametersText (semicolon::(spaces++(key++equals::(value++text))))
        ((key,bare)::params)

inductive ItemText : Bytes → Item δ → Prop
  | mk {value text : Bytes} {bare : BareItem δ} {params : List (Bytes × BareItem δ)}
      (hvalue : BareItemText codec value bare) (htext : ParametersText codec text params) :
      ItemText (value++text) (bare,.ofPairs params)

/-- What follows the opening parenthesis of an inner list, up to the closing one. An item is
followed by a space or by that parenthesis. -/
inductive InnerText : Bytes → List (Item δ) → Prop
  | close {spaces : Bytes} (hspaces : IsSpaces spaces) : InnerText (spaces++[rightParen]) []
  | item {spaces text rest : Bytes} {item : Item δ} {items : List (Item δ)}
      (hspaces : IsSpaces spaces) (hitem : ItemText codec text item)
      (hnext : rest.head? = some space ∨ rest.head? = some rightParen)
      (hrest : InnerText rest items) : InnerText (spaces++(text++rest)) (item::items)

inductive MemberText : Bytes → Member δ → Prop
  | item {text : Bytes} {item : Item δ} (htext : ItemText codec text item) :
      MemberText text (.item item)
  | innerList {inner text : Bytes} {items : List (Item δ)} {params : List (Bytes × BareItem δ)}
      (hinner : InnerText codec inner items) (htext : ParametersText codec text params) :
      MemberText (leftParen::(inner++text)) (.innerList (items,.ofPairs params))

inductive EntryText : Bytes → Bytes × Member δ → Prop
  | flag {key text : Bytes} {params : List (Bytes × BareItem δ)} (hkey : IsKey key)
      (htext : ParametersText codec text params) :
      EntryText (key++text) (key,.item (.boolean true,.ofPairs params))
  | valued {key text : Bytes} {member : Member δ} (hkey : IsKey key)
      (hmember : MemberText codec text member) :
      EntryText (key++equals::text) (key,member)

/-- At least one element, with commas and optional whitespace between them. -/
inductive Separated (element : Bytes → α → Prop) : Bytes → List α → Prop
  | last {text ows : Bytes} {a : α} (htext : element text a) (hows : IsOws ows) :
      Separated element (text++ows) [a]
  | next {text before after rest : Bytes} {a : α} {as : List α} (htext : element text a)
      (hbefore : IsOws before) (hafter : IsOws after) (hrest : Separated element rest as) :
      Separated element (text++(before++comma::(after++rest))) (a::as)

/-- No element, or such a sequence of them. -/
inductive Elements (element : Bytes → α → Prop) : Bytes → List α → Prop
  | nil : Elements element [] []
  | some {text : Bytes} {as : List α} (htext : Separated element text as) :
      Elements element text as

/-- The text of a field stands between spaces. -/
inductive Padded (means : Bytes → α → Prop) : Bytes → α → Prop
  | mk {before text after : Bytes} {a : α} (hbefore : IsSpaces before) (htext : means text a)
      (hafter : IsSpaces after) : Padded means (before++(text++after)) a

def ItemField : Bytes → Item δ → Prop := Padded (ItemText codec)

def ListField : Bytes → List (Member δ) → Prop := Padded (Elements (MemberText codec))

def DictionaryField (value : Bytes) (dictionary : Table (Member δ)) : Prop :=
  ∃ entries,Padded (Elements (EntryText codec)) value entries ∧ dictionary=.ofPairs entries

end BlackBull.StructuredFields
