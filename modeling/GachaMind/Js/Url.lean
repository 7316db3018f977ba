import GachaMind.Lib.Strip
import GachaMind.Js

/-!
# Where a URL reference leads

The origin at which a browser's URL parser arrives for a reference on an https page: ASCII tabs
and newlines are removed, a backslash counts as a slash, and a reference of two leading slashes
names a host. The host parser and the references that start with a scheme are parameters.
-/

namespace GachaMind.Js
open Strip

inductive Origin where
  | unique
  | tuple (scheme host : JsString) (port : Option ℕ)
  deriving DecidableEq

structure HttpsPage where
  host : JsString
  /-- `none` for the default port. -/
  port : Option ℕ
  deriving DecidableEq

def HttpsPage.origin (page : HttpsPage) : Origin := .tuple (utf16 "https") page.host page.port

class UrlParser where
  parseHost : JsString → Option JsString
  parseAbsolute : HttpsPage → JsString → Option Origin

/-! ### Characters -/

def isSlash (c : CodeUnit) : Bool := c == 0x2F || c == 0x5C

def isC0OrSpace (c : CodeUnit) : Bool := c ≤ 0x20

def isTabOrNewline (c : CodeUnit) : Bool := c == 0x9 || c == 0xA || c == 0xD

def isAsciiAlpha (c : CodeUnit) : Bool := (0x41 ≤ c && c ≤ 0x5A) || (0x61 ≤ c && c ≤ 0x7A)

def isAsciiDigit (c : CodeUnit) : Bool := 0x30 ≤ c && c ≤ 0x39

/-- A letter, a digit, `+`, `-` or `.`. -/
def isSchemeChar (c : CodeUnit) : Bool :=
  isAsciiAlpha c || isAsciiDigit c || c == 0x2B || c == 0x2D || c == 0x2E

/-- `/`, `\`, `?` and `#`. -/
def endsAuthority (c : CodeUnit) : Bool := isSlash c || c == 0x3F || c == 0x23

def cleanReference (input : JsString) : JsString :=
  (strip isC0OrSpace input).filter fun c => !isTabOrNewline c

/-! ### The authority -/

/-- What follows the last `@`. -/
def withoutUserinfo (authority : JsString) : JsString :=
  (authority.reverse.takeWhile fun c => c != 0x40).reverse

/-- The host, and the text of the port when there is a `:` outside brackets. -/
def splitPort : Bool → JsString → JsString × Option JsString
  | _, [] => ([], none)
  | inside, c :: rest =>
    if c = 0x3A ∧ inside = false then ([], some rest)
    else
      let split := splitPort (c == 0x5B || (inside && c != 0x5D)) rest
      (c :: split.1, split.2)

def decimalValue (digits : JsString) : ℕ := digits.foldl (fun n c => 10 * n + (c.toNat - 0x30)) 0

/-- The port of an https URL; the outer `none` is a failure. -/
def readPort : Option JsString → Option (Option ℕ)
  | none => some none
  | some text =>
    if text.all isAsciiDigit = false ∨ 65535 < decimalValue text then none
    else if text = [] ∨ decimalValue text = 443 then some none
    else some (some (decimalValue text))

variable [UrlParser]

def authorityOrigin (authority : JsString) : Option Origin := do
  let split := splitPort false (withoutUserinfo authority)
  if split.1 = [] then none
  else
    let host ← UrlParser.parseHost split.1
    let port ← readPort split.2
    return .tuple (utf16 "https") host port

/-! ### References -/

omit [UrlParser] in
def startsWithScheme : JsString → Bool
  | [] => false
  | c :: rest => isAsciiAlpha c && (rest.dropWhile isSchemeChar).head? == some 0x3A

omit [UrlParser] in
def isSchemeRelative : JsString → Bool
  | c :: d :: _ => isSlash c && isSlash d
  | _ => false

/-- The text from the host on, up to the path, the query or the fragment. -/
def authorityOf (reference : JsString) : JsString :=
  (reference.dropWhile isSlash).takeWhile fun c => !endsAuthority c

def resolve (page : HttpsPage) (reference : JsString) : Option Origin :=
  let cleaned := cleanReference reference
  if startsWithScheme cleaned then UrlParser.parseAbsolute page cleaned
  else if isSchemeRelative cleaned then authorityOrigin (authorityOf cleaned)
  else some page.origin

/-! ### References that start with a slash -/

omit [UrlParser] in
theorem cleanReference_slash (rest : JsString) :
    ∃ more, cleanReference (0x2F :: rest) = 0x2F :: more := by
  have hhead : isC0OrSpace 0x2F = false := by decide
  have hkeep : isTabOrNewline 0x2F = false := by decide
  rw [cleanReference, strip_cons_of_neg hhead, List.filter_cons, hkeep]
  exact ⟨_, rfl⟩

theorem resolve_slash (page : HttpsPage) (rest : JsString) :
    resolve page (0x2F :: rest) =
      if isSchemeRelative (cleanReference (0x2F :: rest)) then
        authorityOrigin (authorityOf (cleanReference (0x2F :: rest)))
      else some page.origin := by
  obtain ⟨more, hmore⟩ := cleanReference_slash rest
  have hscheme : startsWithScheme (0x2F :: more) = false := by
    have halpha : isAsciiAlpha 0x2F = false := by decide
    rw [startsWithScheme, halpha, Bool.false_and]
  rw [resolve, hmore, hscheme]
  rfl

end GachaMind.Js
