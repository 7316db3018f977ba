import GachaMind.Js.Url

/-!
# The page after the login (apps/web/src/app/page.tsx)

`nextPath` tests two prefixes of the raw value. Where the browser goes is decided by the URL
parser, for which a backslash is a slash and a tab is nothing.
-/

namespace GachaMind.Web
open GachaMind.Js

/-- `requested.startsWith("/") && !requested.startsWith("//")`. -/
def isAppPath (requested : JsString) : Bool :=
  (utf16 "/").isPrefixOf requested && !(utf16 "//").isPrefixOf requested

/-- `next` is the query parameter of the page's address. -/
def nextPath (next : Option JsString) : JsString :=
  let requested := next.getD []
  if isAppPath requested then requested else utf16 "/lobby"

theorem isAppPath_cons {requested : JsString} (h : isAppPath requested = true) :
    ∃ rest, requested = 0x2F :: rest := by
  have hprefix := List.isPrefixOf_iff_prefix.mp ((Bool.and_eq_true _ _).mp h).1
  obtain ⟨rest, hrest⟩ := hprefix
  exact ⟨rest, hrest.symm⟩

variable [UrlParser]

/-- The destination is on the page's own origin. -/
def StaysOnOrigin (page : HttpsPage) (next : Option JsString) : Prop :=
  resolve page (nextPath next) = some page.origin

/-- The value passes the prefix test, but the parser reads it as `//host…`. -/
def readsAsHost (requested : JsString) : Bool :=
  isAppPath requested && isSchemeRelative (cleanReference requested)

theorem staysOnOrigin_iff (page : HttpsPage) (next : Option JsString) :
    StaysOnOrigin page next ↔
      readsAsHost (next.getD []) = false ∨
        authorityOrigin (authorityOf (cleanReference (next.getD []))) = some page.origin := by
  unfold StaysOnOrigin nextPath readsAsHost
  dsimp only
  by_cases happ : isAppPath (next.getD []) = true
  · obtain ⟨rest, hrest⟩ := isAppPath_cons happ
    rw [if_pos happ, happ, Bool.true_and, hrest, resolve_slash]
    split_ifs with hrelative
    · simp [hrelative]
    · simp [hrelative]
  · have hlobby : utf16 "/lobby" = 0x2F :: utf16 "lobby" := by decide
    have hown : isSchemeRelative (cleanReference (0x2F :: utf16 "lobby")) = false := by decide
    rw [if_neg happ, hlobby, resolve_slash, hown, Bool.eq_false_iff.mpr happ]
    simp

/-- A host parser for names of lower-case letters, digits, dots and hyphens. -/
@[reducible] def plainUrlParser : UrlParser where
  parseHost text :=
    if text.all fun c => (0x61 ≤ c && c ≤ 0x7A) || isAsciiDigit c || c == 0x2D || c == 0x2E then
      some text
    else none
  parseAbsolute _ _ := none

omit [UrlParser] in
theorem backslash_leaves_origin :
    @resolve plainUrlParser ⟨utf16 "gachamind.example", none⟩
        (nextPath (some (utf16 "/\\evil.example"))) =
      some (.tuple (utf16 "https") (utf16 "evil.example") none) ∧
    ¬ @StaysOnOrigin plainUrlParser ⟨utf16 "gachamind.example", none⟩
      (some (utf16 "/\\evil.example")) ∧
    ¬ @StaysOnOrigin plainUrlParser ⟨utf16 "gachamind.example", none⟩
      (some (utf16 "/\t/evil.example")) := by
  unfold StaysOnOrigin
  decide

end GachaMind.Web
