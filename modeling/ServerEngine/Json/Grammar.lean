import ServerEngine.Json.Parser

/-! # The grammar of JSON

JSON texts as byte strings, each with the value it denotes, and what a stream of parser events denotes.
Bytes from 0x20 on stand for themselves in a string, so the grammar is the one of RFC 8259 over bytes.
-/
namespace ServerEngine

/-- A JSON value; a real number is the bits of its double, and a string its bytes. -/
inductive JsonValue
  | null
  | boolean (value : Bool)
  | integer (value : Int)
  | number (bits : Nat)
  | string (value : Bytes)
  | array (elements : List JsonValue)
  | object (members : List (Bytes × JsonValue))

/-! ## Texts -/

def Whitespace (t : Bytes) : Prop := ∀ b ∈ t, isSpace b = true

def Digits (t : Bytes) : Prop := t ≠ [] ∧ ∀ b ∈ t, isDigit b = true

def signText (negative : Bool) : Bytes := if negative then [ascii '-'] else []

/-- `int`: no leading zero. -/
inductive IntegerText : Bytes → Prop
  | zero : IntegerText [ascii '0']
  | digits {d : UInt8} {t : Bytes} (hd : isDigit d = true) (hne : d ≠ ascii '0')
      (ht : ∀ b ∈ t, isDigit b = true) : IntegerText (d :: t)

inductive FractionText : Bytes → Prop
  | absent : FractionText []
  | point {t : Bytes} (ht : Digits t) : FractionText (ascii '.' :: t)

inductive ExponentText : Bytes → Prop
  | absent : ExponentText []
  | mark {e : UInt8} {sign t : Bytes} (he : e = ascii 'e' ∨ e = ascii 'E')
      (hsign : sign = [] ∨ sign = [ascii '+'] ∨ sign = [ascii '-']) (ht : Digits t) :
      ExponentText (e :: (sign ++ t))

inductive HexText : Bytes → Nat → Prop
  | digits {a b c d : UInt8} {i j k l : Nat} (ha : hexValue a = some i) (hb : hexValue b = some j)
      (hc : hexValue c = some k) (hd : hexValue d = some l) :
      HexText [a, b, c, d] (((i * 16 + j) * 16 + k) * 16 + l)

def escapes : List (UInt8 × UInt8) :=
  [(ascii '"', ascii '"'), (ascii '\\', ascii '\\'), (ascii '/', ascii '/'), (ascii 'b', 8),
    (ascii 'f', 12), (ascii 'n', 10), (ascii 'r', 13), (ascii 't', 9)]

def utf8 (codepoint : Nat) : Bytes := String.utf8EncodeChar (Char.ofNat codepoint)

inductive CharactersText : Bytes → Bytes → Prop
  | nil : CharactersText [] []
  | raw {b : UInt8} {t v : Bytes} (hcontrol : 0x20 ≤ b) (hquote : b ≠ ascii '"')
      (hescape : b ≠ ascii '\\') (ht : CharactersText t v) : CharactersText (b :: t) (b :: v)
  | escape {e b : UInt8} {t v : Bytes} (he : (e, b) ∈ escapes) (ht : CharactersText t v) :
      CharactersText (ascii '\\' :: e :: t) (b :: v)
  | unicode {h t v : Bytes} {c : Nat} (hhex : HexText h c) (hc : c < 0xD800 ∨ 0xDFFF < c)
      (ht : CharactersText t v) :
      CharactersText (ascii '\\' :: ascii 'u' :: (h ++ t)) (utf8 c ++ v)
  | pair {h h' t v : Bytes} {c c' : Nat} (hhex : HexText h c) (hc : 0xD800 ≤ c ∧ c ≤ 0xDBFF)
      (hhex' : HexText h' c') (hc' : 0xDC00 ≤ c' ∧ c' ≤ 0xDFFF) (ht : CharactersText t v) :
      CharactersText
        (ascii '\\' :: ascii 'u' :: (h ++ ascii '\\' :: ascii 'u' :: (h' ++ t)))
        (utf8 (0x10000 + (c - 0xD800) * 1024 + (c' - 0xDC00)) ++ v)

inductive StringText : Bytes → Bytes → Prop
  | quoted {t v : Bytes} (ht : CharactersText t v) :
      StringText (ascii '"' :: (t ++ [ascii '"'])) v

inductive JsonPhrase
  | value (v : JsonValue)
  | elements (vs : List JsonValue)
  | members (ms : List (Bytes × JsonValue))

/-- The phrases in which arrays and objects nest at most so deep. -/
inductive Derives : Nat → Bytes → JsonPhrase → Prop
  | null {d : Nat} : Derives d (asciiBytes "null") (.value .null)
  | truth {d : Nat} : Derives d (asciiBytes "true") (.value (.boolean true))
  | falsity {d : Nat} : Derives d (asciiBytes "false") (.value (.boolean false))
  | string {d : Nat} {t v : Bytes} (ht : StringText t v) : Derives d t (.value (.string v))
  | integer {d : Nat} {negative : Bool} {t : Bytes} {v : Int} (ht : IntegerText t)
      (hv : v = if negative then -(decimalValue t : Int) else decimalValue t)
      (hfits : -2 ^ 63 ≤ v ∧ v < 2 ^ 63) : Derives d (signText negative ++ t) (.value (.integer v))
  | number {d : Nat} {negative : Bool} {t f e : Bytes} {bits : Nat} (ht : IntegerText t)
      (hf : FractionText f) (he : ExponentText e) (hreal : f ++ e ≠ [])
      (hbits : fromCharsDouble (signText negative ++ (t ++ (f ++ e))) = some bits)
      (hfinite : binary64.isFinite bits = true) :
      Derives d (signText negative ++ (t ++ (f ++ e))) (.value (.number bits))
  | emptyArray {d : Nat} {w : Bytes} (hw : Whitespace w) :
      Derives (d + 1) (ascii '[' :: (w ++ [ascii ']'])) (.value (.array []))
  | array {d : Nat} {t : Bytes} {vs : List JsonValue} (ht : Derives d t (.elements vs)) :
      Derives (d + 1) (ascii '[' :: (t ++ [ascii ']'])) (.value (.array vs))
  | emptyObject {d : Nat} {w : Bytes} (hw : Whitespace w) :
      Derives (d + 1) (ascii '{' :: (w ++ [ascii '}'])) (.value (.object []))
  | object {d : Nat} {t : Bytes} {ms : List (Bytes × JsonValue)} (ht : Derives d t (.members ms)) :
      Derives (d + 1) (ascii '{' :: (t ++ [ascii '}'])) (.value (.object ms))
  | lastElement {d : Nat} {w t w' : Bytes} {v : JsonValue} (hw : Whitespace w)
      (ht : Derives d t (.value v)) (hw' : Whitespace w') :
      Derives d (w ++ (t ++ w')) (.elements [v])
  | element {d : Nat} {w t w' rest : Bytes} {v : JsonValue} {vs : List JsonValue}
      (hw : Whitespace w) (ht : Derives d t (.value v)) (hw' : Whitespace w')
      (hrest : Derives d rest (.elements vs)) :
      Derives d (w ++ (t ++ (w' ++ ascii ',' :: rest))) (.elements (v :: vs))
  | lastMember {d : Nat} {w k w₁ w₂ t w' name : Bytes} {v : JsonValue} (hw : Whitespace w)
      (hk : StringText k name) (hw₁ : Whitespace w₁) (hw₂ : Whitespace w₂)
      (ht : Derives d t (.value v)) (hw' : Whitespace w') :
      Derives d (w ++ (k ++ (w₁ ++ ascii ':' :: (w₂ ++ (t ++ w'))))) (.members [(name, v)])
  | member {d : Nat} {w k w₁ w₂ t w' rest name : Bytes} {v : JsonValue}
      {ms : List (Bytes × JsonValue)} (hw : Whitespace w) (hk : StringText k name)
      (hw₁ : Whitespace w₁) (hw₂ : Whitespace w₂) (ht : Derives d t (.value v))
      (hw' : Whitespace w') (hrest : Derives d rest (.members ms)) :
      Derives d (w ++ (k ++ (w₁ ++ ascii ':' :: (w₂ ++ (t ++ (w' ++ ascii ',' :: rest))))))
        (.members ((name, v) :: ms))

/-- `JSON-text`: one value with whitespace around it. -/
inductive JsonText : Bytes → JsonValue → Prop
  | padded {w t w' : Bytes} {v : JsonValue} (hw : Whitespace w)
      (ht : Derives maxJsonDepth t (.value v)) (hw' : Whitespace w') : JsonText (w ++ (t ++ w')) v

/-- An array or an object whose end has not come yet; an object may have a key without its value. -/
inductive JsonFrame
  | array (elements : List JsonValue)
  | object (members : List (Bytes × JsonValue)) (key : Option Bytes)

/-- The open arrays and objects, innermost first, and the value when it is complete. -/
structure JsonBuilder where
  frames : List JsonFrame := []
  root : Option JsonValue := none

namespace JsonBuilder

def place (b : JsonBuilder) (v : JsonValue) : Option JsonBuilder :=
  match b.frames with
  | [] => if b.root.isNone then some { b with root := some v } else none
  | .array vs :: frames => some { b with frames := .array (vs ++ [v]) :: frames }
  | .object ms (some key) :: frames =>
    some { b with frames := .object (ms ++ [(key, v)]) none :: frames }
  | .object _ none :: _ => none

def step (b : JsonBuilder) : JsonEvent → Option JsonBuilder
  | .location _ => some b
  | .objectBegin => some { b with frames := .object [] none :: b.frames }
  | .arrayBegin => some { b with frames := .array [] :: b.frames }
  | .key key => match b.frames with
    | .object ms none :: frames => some { b with frames := .object ms (some key) :: frames }
    | _ => none
  | .objectEnd => match b.frames with
    | .object ms none :: frames => place { b with frames } (.object ms)
    | _ => none
  | .arrayEnd => match b.frames with
    | .array vs :: frames => place { b with frames } (.array vs)
    | _ => none
  | .string value => b.place (.string value)
  | .integer value => b.place (.integer value)
  | .number bits => b.place (.number bits)
  | .boolean value => b.place (.boolean value)
  | .null => b.place .null

end JsonBuilder

def rebuildJson (events : List JsonEvent) : Option JsonValue :=
  match events.foldlM JsonBuilder.step {} with
  | some ⟨[], root⟩ => root
  | _ => none

def nestStep (opened : List JsonEvent) : JsonEvent → Option (List JsonEvent)
  | .objectBegin => some (.objectBegin :: opened)
  | .arrayBegin => some (.arrayBegin :: opened)
  | .objectEnd => if opened.head? = some .objectBegin then some opened.tail else none
  | .arrayEnd => if opened.head? = some .arrayBegin then some opened.tail else none
  | _ => some opened

/-- Every end closes the last open begin of its kind, and every begin is closed. -/
def WellNested (events : List JsonEvent) : Prop := events.foldlM nestStep [] = some []

end ServerEngine
