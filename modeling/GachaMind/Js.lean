import Mathlib

/-!
# JavaScript values

Strings are lists of UTF-16 code units, as `slice` and `length` count them. JSON
values are what `JSON.parse` returns; a property read of a missing property is
`none` (`undefined`). The conversions `String(v)` and `Number(v)` follow the
language's `ToPrimitive` on such values and throw exactly when an object shadows
`toString`, since a JSON value is never callable.
-/

namespace GachaMind.Js

abbrev CodeUnit := UInt16

abbrev JsString := List CodeUnit

instance : LawfulBEq JsString := inferInstance

def codeUnits (c : Char) : JsString :=
  if c.val < 0x10000 then [c.val.toUInt16]
  else
    let v := c.val - 0x10000
    [(0xD800 + v / 0x400).toUInt16, (0xDC00 + v % 0x400).toUInt16]

/-- The code units of a literal of the source. -/
def utf16 (s : String) : JsString := s.toList.flatMap codeUnits

/-- White space and line terminators: what `trim` strips and `\s` matches. -/
def isWhiteSpace (c : CodeUnit) : Bool :=
  (0x9 ≤ c && c ≤ 0xD) || c == 0x20 || c == 0xA0 || c == 0x1680 ||
    (0x2000 ≤ c && c ≤ 0x200A) || c == 0x2028 || c == 0x2029 || c == 0x202F ||
    c == 0x205F || c == 0x3000 || c == 0xFEFF

def trim (s : JsString) : JsString :=
  ((s.dropWhile isWhiteSpace).reverse.dropWhile isWhiteSpace).reverse

/-- `s.slice(0, n)`. -/
def sliceTo (s : JsString) (n : ℕ) : JsString := s.take n

def includes (s t : JsString) : Bool := decide (t <:+: s)

/-- `s.replace(/\s+/g, "")`. -/
def removeWhiteSpace (s : JsString) : JsString := s.filter fun c => !isWhiteSpace c

/-- Number values. A finite double is its rational value; the sign of zero, which no
modelled function observes, is not kept. -/
inductive JsNumber where
  | nan
  | posInfinity
  | negInfinity
  | finite (q : ℚ)
  deriving DecidableEq

/-- What the model takes from the engine's tables: the Unicode case mappings and the
conversions between numbers and their texts. -/
class Runtime where
  toLowerCase : JsString → JsString
  toUpperCase : JsString → JsString
  stringToNumber : JsString → JsNumber
  numberToString : JsNumber → JsString

/-- `a || b` on numbers: zero and NaN are falsy. -/
def JsNumber.or (a b : JsNumber) : JsNumber :=
  match a with
  | .nan => b
  | .finite q => if q = 0 then b else a
  | a => a

/-- `Math.min(Math.max(a, lo), hi)`. -/
def JsNumber.clamp (a : JsNumber) (lo hi : ℚ) : JsNumber :=
  match a with
  | .nan => .nan
  | .posInfinity => .finite (min (max lo hi) hi)
  | .negInfinity => .finite (min lo hi)
  | .finite q => .finite (min (max q lo) hi)

/-- JSON values. The fields of an object are its own properties. -/
inductive Json where
  | null
  | bool (b : Bool)
  | num (n : JsNumber)
  | str (s : JsString)
  | arr (items : List Json)
  | obj (fields : List (JsString × Json))

def Json.isNull : Json → Bool
  | .null => true
  | _ => false

/-- The exceptions the modelled code can raise: a `TypeError` of the engine, or the
rejection of an awaited promise. -/
inductive JsError where
  | typeError
  | rejected
  deriving DecidableEq

def lookupField (name : JsString) : List (JsString × Json) → Option Json
  | [] => none
  | (k, v) :: fields => if k = name then some v else lookupField name fields

/-- Property `name` of a value other than `null`. No property that the modelled code reads
exists on the prototypes of JSON values, so only own properties count. -/
def Json.field (v : Json) (name : JsString) : Option Json :=
  match v with
  | .obj fields => lookupField name fields
  | _ => none

def getProp (v : Json) (name : JsString) : Except JsError (Option Json) :=
  if v.isNull then .error .typeError else .ok (v.field name)

/-- `v === t` for a string literal `t`. -/
def isString (v : Option Json) (t : JsString) : Bool :=
  match v with
  | some (.str s) => decide (s = t)
  | _ => false

def truthy (s : Option JsString) : Bool := s.any fun x => !x.isEmpty

/-- Calling a string method on a value throws unless it is a string. -/
def asString : Option Json → Except JsError JsString
  | some (.str s) => .ok s
  | _ => .error .typeError

def shadowsToString (fields : List (JsString × Json)) : Bool :=
  (lookupField (utf16 "toString") fields).isSome

/-! ### Exceptions -/

theorem bind_eq_ok {α β : Type} {x : Except JsError α} {f : α → Except JsError β} {b : β} :
    (x >>= f) = .ok b ↔ ∃ a, x = .ok a ∧ f a = .ok b := by
  cases x with
  | error e => exact iff_of_false (fun h => by cases h) fun h => by simp at h
  | ok a =>
    refine ⟨fun h => ⟨a, rfl, h⟩, fun h => ?_⟩
    obtain ⟨c, hc, h⟩ := h
    rwa [Except.ok.inj hc]

theorem toOption_eq_some {α : Type} {x : Except JsError α} {a : α} (h : x.toOption = some a) :
    x = .ok a := by
  cases x with
  | error e => cases h
  | ok b => rw [Option.some.inj h]

/-! ### Conversions -/

variable [Runtime]

mutual
/-- `String(v)`. -/
def toStr : Json → Except JsError JsString
  | .null => .ok (utf16 "null")
  | .bool b => .ok (if b then utf16 "true" else utf16 "false")
  | .num n => .ok (Runtime.numberToString n)
  | .str s => .ok s
  | .arr items => joinItems items
  | .obj fields =>
    if shadowsToString fields then .error .typeError else .ok (utf16 "[object Object]")

/-- `items.join(",")`: `null` items are empty. -/
def joinItems : List Json → Except JsError JsString
  | [] => .ok []
  | v :: rest => do
      let item ← if v.isNull then .ok [] else toStr v
      let tail ← joinItems rest
      return if rest.isEmpty then item else item ++ utf16 "," ++ tail
end

/-- `Number(v)`, with `undefined` as `none`. -/
def toNumber : Option Json → Except JsError JsNumber
  | none => .ok .nan
  | some .null => .ok (.finite 0)
  | some (.bool b) => .ok (.finite (if b then 1 else 0))
  | some (.num n) => .ok n
  | some (.str s) => .ok (Runtime.stringToNumber s)
  | some (.arr items) => do return Runtime.stringToNumber (← joinItems items)
  | some (.obj fields) => if shadowsToString fields then .error .typeError else .ok .nan

end GachaMind.Js
