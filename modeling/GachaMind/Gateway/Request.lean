import GachaMind.Lib.Strip
import GachaMind.Gateway.Relay
import GachaMind.Js.Latin1

/-!
# The upgrade request on both sides of the gateway (apps/gs-gateway/src/index.ts)

Node's HTTP parser reads the head of a request as bytes and delivers its texts as latin1;
`upstream.write` encodes the text of `serializeRequest` as UTF-8. Which bytes may stand in a
method, a URL, a name and a value is a parameter.
-/

namespace GachaMind.Gateway
open GachaMind.Js Strip

deriving instance DecidableEq for IncomingMessage

/-- The bytes that the parser takes in each part of a head. No part holds its own end. -/
class MessageGrammar where
  isMethodByte : UInt8 → Bool
  isUrlByte : UInt8 → Bool
  isNameByte : UInt8 → Bool
  isValueByte : UInt8 → Bool
  method_space : isMethodByte 0x20 = false
  method_cr : isMethodByte 0x0D = false
  url_space : isUrlByte 0x20 = false
  url_cr : isUrlByte 0x0D = false
  name_colon : isNameByte 0x3A = false
  name_cr : isNameByte 0x0D = false
  value_cr : isValueByte 0x0D = false

/-- The parts of a head, as bytes. -/
structure RawRequest where
  method : List UInt8
  url : List UInt8
  version : List UInt8
  headers : List (List UInt8 × List UInt8)

/-! ### The parser -/

/-- The lines up to the empty line, and what follows it. -/
def takeLines (line : List UInt8) : List UInt8 → Option (List (List UInt8) × List UInt8)
  | [] => none
  | b :: bytes =>
    if b = 0x0A ∧ line.getLast? = some 0x0D then
      if line.dropLast = [] then some ([], bytes)
      else (takeLines [] bytes).map fun r => (line.dropLast :: r.1, r.2)
    else takeLines (line ++ [b]) bytes

/-- The bytes before and after the first `b`. -/
def splitAtByte (b : UInt8) (bytes : List UInt8) : Option (List UInt8 × List UInt8) :=
  match bytes.dropWhile (· != b) with
  | [] => none
  | _ :: after => some (bytes.takeWhile (· != b), after)

def isOws (b : UInt8) : Bool := b == 0x20 || b == 0x09

def trimOws (bytes : List UInt8) : List UInt8 := strip isOws bytes

/-- `HTTP/`. -/
def httpSlash : List UInt8 := [0x48, 0x54, 0x54, 0x50, 0x2F]

def readRequestLine (line : List UInt8) : Option (List UInt8 × List UInt8 × List UInt8) := do
  let (method, rest) ← splitAtByte 0x20 line
  let (url, rest) ← splitAtByte 0x20 rest
  if httpSlash <+: rest then some (method, url, rest.drop 5) else none

def readHeader (line : List UInt8) : Option (List UInt8 × List UInt8) := do
  let (name, value) ← splitAtByte 0x3A line
  return (name, trimOws value)

def splitRequest (bytes : List UInt8) : Option (RawRequest × List UInt8) := do
  let (lines, head) ← takeLines [] bytes
  let first ← lines.head?
  let (method, url, version) ← readRequestLine first
  let headers ← lines.tail.mapM readHeader
  return (⟨method, url, version, headers⟩, head)

/-- `d.d`. -/
def isVersion : List UInt8 → Bool
  | [major, dot, minor] =>
    (0x30 ≤ major && major ≤ 0x39) && dot == 0x2E && (0x30 ≤ minor && minor ≤ 0x39)
  | _ => false

/-- A part that is not empty, of bytes of its kind. -/
def isPart (isByte : UInt8 → Bool) (part : List UInt8) : Bool := !part.isEmpty && part.all isByte

def RawRequest.decode (r : RawRequest) : IncomingMessage where
  method := fromLatin1 r.method
  url := some (fromLatin1 r.url)
  httpVersion := fromLatin1 r.version
  rawHeaders := r.headers.map fun h => (fromLatin1 h.1, fromLatin1 h.2)

section
variable [MessageGrammar]
open MessageGrammar

def RawRequest.valid (r : RawRequest) : Bool :=
  isPart isMethodByte r.method && isPart isUrlByte r.url && isVersion r.version &&
    r.headers.all fun h => isPart isNameByte h.1 && h.2.all isValueByte

/-- The request that the parser delivers, and the bytes behind its head. -/
def parseRequest (bytes : List UInt8) : Option (IncomingMessage × List UInt8) := do
  let (r, head) ← splitRequest bytes
  if r.valid then some (r.decode, head) else none

end

/-! ### Splitting what was joined -/

def crlfBytes : List UInt8 := [0x0D, 0x0A]

def headerLine (h : List UInt8 × List UInt8) : List UInt8 := h.1 ++ [0x3A, 0x20] ++ h.2

def RawRequest.firstLine (r : RawRequest) : List UInt8 :=
  r.method ++ [0x20] ++ r.url ++ [0x20] ++ httpSlash ++ r.version

def RawRequest.lines (r : RawRequest) : List (List UInt8) :=
  r.firstLine :: r.headers.map headerLine

/-- The bytes of the head, as `serializeRequest` joins its lines. -/
def RawRequest.bytes (r : RawRequest) : List UInt8 :=
  r.lines.flatMap (· ++ crlfBytes) ++ crlfBytes

theorem takeLines_text {line text rest : List UInt8} (hline : 0x0D ∉ line) (htext : 0x0D ∉ text) :
    takeLines line (text ++ 0x0D :: 0x0A :: rest) =
      takeLines (line ++ text ++ [0x0D]) (0x0A :: rest) := by
  induction text generalizing line with
  | nil =>
    have hcr : ¬ ((0x0D : UInt8) = 0x0A ∧ line.getLast? = some 0x0D) := fun h =>
      absurd h.1 (by decide)
    rw [List.nil_append, takeLines, if_neg hcr, List.append_nil]
  | cons b text ih =>
    have hlast : ¬ (b = 0x0A ∧ line.getLast? = some 0x0D) := fun h =>
      hline (List.mem_of_getLast? h.2)
    have hb : 0x0D ∉ line ++ [b] := by
      intro hmem
      rcases List.mem_append.mp hmem with hmem | hmem
      · exact hline hmem
      · exact htext (List.mem_singleton.mp hmem ▸ List.mem_cons_self)
    rw [List.cons_append, takeLines, if_neg hlast, ih hb fun h => htext (List.mem_cons_of_mem b h)]
    simp

theorem takeLines_line {line rest : List UInt8} (hcr : 0x0D ∉ line) :
    takeLines [] (line ++ 0x0D :: 0x0A :: rest) =
      if line = [] then some ([], rest)
      else (takeLines [] rest).map fun r => (line :: r.1, r.2) := by
  rw [takeLines_text List.not_mem_nil hcr, List.nil_append, takeLines, if_pos (by simp),
    List.dropLast_concat]

theorem takeLines_lines {lines : List (List UInt8)}
    (h : ∀ line ∈ lines, line ≠ [] ∧ 0x0D ∉ line) (rest : List UInt8) :
    takeLines [] (lines.flatMap (· ++ crlfBytes) ++ crlfBytes ++ rest) = some (lines, rest) := by
  induction lines with
  | nil => rfl
  | cons line lines ih =>
    obtain ⟨⟨hne, hcr⟩, hlines⟩ := List.forall_mem_cons.mp h
    have hsplit : (line :: lines).flatMap (· ++ crlfBytes) ++ crlfBytes ++ rest =
        line ++ 0x0D :: 0x0A :: (lines.flatMap (· ++ crlfBytes) ++ crlfBytes ++ rest) := by
      simp [crlfBytes]
    rw [hsplit, takeLines_line hcr, if_neg hne, ih hlines]
    rfl

theorem splitAtByte_append {b : UInt8} {before : List UInt8} (h : b ∉ before)
    (after : List UInt8) : splitAtByte b (before ++ b :: after) = some (before, after) := by
  have hkeep : ∀ x ∈ before, (x != b) = true := by
    intro x hx
    exact bne_iff_ne.mpr fun heq => h (heq ▸ hx)
  rw [splitAtByte, List.dropWhile_append_of_pos hkeep, List.takeWhile_append_of_pos hkeep]
  simp

/-- No part holds the byte that ends it. -/
structure Separable (r : RawRequest) : Prop where
  method : 0x20 ∉ r.method ∧ 0x0D ∉ r.method
  url : 0x20 ∉ r.url ∧ 0x0D ∉ r.url
  version : 0x0D ∉ r.version
  names : ∀ h ∈ r.headers, 0x3A ∉ h.1 ∧ 0x0D ∉ h.1
  values : ∀ h ∈ r.headers, 0x0D ∉ h.2 ∧ Bare isOws h.2

theorem readRequestLine_firstLine {r : RawRequest} (h : Separable r) :
    readRequestLine r.firstLine = some (r.method, r.url, r.version) := by
  have hmethod : r.firstLine = r.method ++ 0x20 :: (r.url ++ 0x20 :: (httpSlash ++ r.version)) := by
    simp [RawRequest.firstLine]
  have hversion : (httpSlash ++ r.version).drop 5 = r.version := rfl
  rw [readRequestLine, hmethod, splitAtByte_append h.method.1]
  show (splitAtByte 0x20 (r.url ++ 0x20 :: (httpSlash ++ r.version))).bind _ = _
  rw [splitAtByte_append h.url.1]
  show (if httpSlash <+: httpSlash ++ r.version then some _ else none) = _
  rw [if_pos (List.prefix_append _ _), hversion]

theorem readHeader_headerLine {h : List UInt8 × List UInt8} (hname : 0x3A ∉ h.1)
    (hvalue : Bare isOws h.2) : readHeader (headerLine h) = some h := by
  have hline : headerLine h = h.1 ++ 0x3A :: 0x20 :: h.2 := by simp [headerLine]
  rw [readHeader, hline, splitAtByte_append hname]
  have htrimmed : trimOws (0x20 :: h.2) = h.2 := by
    rw [trimOws, strip_cons_of_pos rfl, hvalue.strip_eq]
  show some (h.1, trimOws (0x20 :: h.2)) = some h
  rw [htrimmed]

theorem mapM_readHeader {headers : List (List UInt8 × List UInt8)}
    (hnames : ∀ h ∈ headers, 0x3A ∉ h.1) (hvalues : ∀ h ∈ headers, Bare isOws h.2) :
    (headers.map headerLine).mapM readHeader = some headers := by
  induction headers with
  | nil => rfl
  | cons h headers ih =>
    obtain ⟨hname, hnames⟩ := List.forall_mem_cons.mp hnames
    obtain ⟨hvalue, hvalues⟩ := List.forall_mem_cons.mp hvalues
    rw [List.map_cons, List.mapM_cons, readHeader_headerLine hname hvalue, ih hnames hvalues]
    rfl

theorem Separable.lines {r : RawRequest} (h : Separable r) :
    ∀ line ∈ r.lines, line ≠ [] ∧ 0x0D ∉ line := by
  have hslash : (0x0D : UInt8) ∉ httpSlash := by decide
  intro line hline
  rcases List.mem_cons.mp hline with rfl | hline
  · refine ⟨by simp [RawRequest.firstLine], ?_⟩
    simp [RawRequest.firstLine, h.method.2, h.url.2, h.version, hslash]
  · obtain ⟨field, hfield, rfl⟩ := List.mem_map.mp hline
    refine ⟨by simp [headerLine], ?_⟩
    simp [headerLine, (h.names field hfield).2, (h.values field hfield).1]

theorem splitRequest_bytes {r : RawRequest} (h : Separable r) (head : List UInt8) :
    splitRequest (r.bytes ++ head) = some (r, head) := by
  have hheaders := mapM_readHeader (fun f hf => (h.names f hf).1) fun f hf => (h.values f hf).2
  rw [splitRequest, RawRequest.bytes, takeLines_lines h.lines head]
  show (readRequestLine r.firstLine).bind (fun parts =>
    ((r.headers.map headerLine).mapM readHeader).bind fun headers =>
      some (RawRequest.mk parts.1 parts.2.1 parts.2.2 headers, head)) = _
  rw [readRequestLine_firstLine h, hheaders]
  rfl

/-! ### Through the gateway -/

/-- The parts as they come out of the gateway. -/
def RawRequest.recode (r : RawRequest) : RawRequest where
  method := Js.recode r.method
  url := Js.recode r.url
  version := Js.recode r.version
  headers := r.headers.map fun h => (Js.recode h.1, Js.recode h.2)

theorem bare_recode {v : List UInt8} (h : Bare isOws v) : Bare isOws (Js.recode v) := by
  have hows : ∀ {b : UInt8}, isOws b = true → b < 0x80 := by
    intro b hb
    simp only [isOws, Bool.or_eq_true, beq_iff_eq] at hb
    rcases hb with rfl | rfl <;> decide
  constructor
  · intro b hb
    by_contra hspace
    rw [Bool.not_eq_false] at hspace
    cases v with
    | nil => cases hb
    | cons x v =>
      obtain ⟨y, rest, hy⟩ : ∃ y rest, reencode x = y :: rest := by
        unfold reencode
        split_ifs <;> exact ⟨_, _, rfl⟩
      rw [Js.recode, List.flatMap_cons, hy] at hb
      obtain rfl := Option.some.inj hb
      have hxy := mem_reencode (hows hspace) (hy ▸ List.mem_cons_self : y ∈ reencode x)
      have hfirst := h.first x rfl
      rw [← hxy, hspace] at hfirst
      cases hfirst
  · intro b hb
    by_contra hspace
    rw [Bool.not_eq_false] at hspace
    rcases List.eq_nil_or_concat v with rfl | ⟨v, x, rfl⟩
    · cases hb
    · have hne : reencode x ≠ [] := by
        unfold reencode
        split_ifs <;> exact List.cons_ne_nil _ _
      have hlast : b ∈ reencode x := by
        rw [List.concat_eq_append, recode_append, Js.recode, Js.recode, List.flatMap_singleton,
          List.getLast?_append_of_ne_nil _ hne] at hb
        exact List.mem_of_getLast? hb
      have hxb := mem_reencode (hows hspace) hlast
      have hlast' := h.last x (by simp)
      rw [← hxb, hspace] at hlast'
      cases hlast'

theorem Separable.recode {r : RawRequest} (h : Separable r) : Separable r.recode where
  method := by
    refine ⟨fun hm => h.method.1 ((mem_recode (by decide)).mp hm), fun hm => ?_⟩
    exact h.method.2 ((mem_recode (by decide)).mp hm)
  url := by
    refine ⟨fun hm => h.url.1 ((mem_recode (by decide)).mp hm), fun hm => ?_⟩
    exact h.url.2 ((mem_recode (by decide)).mp hm)
  version hm := h.version ((mem_recode (by decide)).mp hm)
  names field hfield := by
    obtain ⟨f, hf, rfl⟩ := List.mem_map.mp hfield
    obtain ⟨hcolon, hcr⟩ := h.names f hf
    exact ⟨fun hm => hcolon ((mem_recode (by decide)).mp hm),
      fun hm => hcr ((mem_recode (by decide)).mp hm)⟩
  values field hfield := by
    obtain ⟨f, hf, rfl⟩ := List.mem_map.mp hfield
    obtain ⟨hcr, htrimmed⟩ := h.values f hf
    exact ⟨fun hm => hcr ((mem_recode (by decide)).mp hm), bare_recode htrimmed⟩

theorem recode_lines (lines : List (List UInt8)) :
    Js.recode (lines.flatMap (· ++ crlfBytes) ++ crlfBytes) =
      (lines.map Js.recode).flatMap (· ++ crlfBytes) ++ crlfBytes := by
  have hcrlf : Js.recode crlfBytes = crlfBytes := by decide
  induction lines with
  | nil => exact hcrlf
  | cons line lines ih =>
    rw [List.flatMap_cons, List.append_assoc, recode_append, recode_append, hcrlf, ih]
    simp

theorem recode_bytes (r : RawRequest) : Js.recode r.bytes = r.recode.bytes := by
  have hspace : Js.recode [0x20] = [0x20] := by decide
  have hslash : Js.recode httpSlash = httpSlash := by decide
  have hcolon : Js.recode [0x3A, 0x20] = [0x3A, 0x20] := by decide
  have hfirst : Js.recode r.firstLine = r.recode.firstLine := by
    simp only [RawRequest.firstLine, recode_append, hspace, hslash]
    rfl
  have hheaders : (r.headers.map headerLine).map Js.recode = r.recode.headers.map headerLine := by
    simp only [RawRequest.recode, List.map_map]
    apply List.map_congr_left
    intro h _
    simp only [Function.comp_apply, headerLine, recode_append, hcolon]
  rw [RawRequest.bytes, recode_lines, RawRequest.lines, List.map_cons, hfirst, hheaders]
  rfl

theorem intercalate_crlf (first : JsString) (lines : List JsString) :
    crlf.intercalate (first :: lines) ++ crlf = (first :: lines).flatMap (· ++ crlf) := by
  induction lines generalizing first with
  | nil => simp
  | cons line lines ih =>
    rw [List.intercalate_cons_cons, List.append_assoc, ih, List.flatMap_cons (x := first),
      List.append_assoc]

theorem serializeRequest_decode (r : RawRequest) :
    serializeRequest r.decode = fromLatin1 r.bytes := by
  have hspace : utf16 " " = fromLatin1 [0x20] := by decide
  have hslash : utf16 " HTTP/" = fromLatin1 ([0x20] ++ httpSlash) := by decide
  have hcolon : utf16 ": " = fromLatin1 [0x3A, 0x20] := by decide
  have hcrlf : crlf = fromLatin1 crlfBytes := by decide
  have hfirst : r.decode.method ++ utf16 " " ++ interpolate r.decode.url ++ utf16 " HTTP/" ++
      r.decode.httpVersion = fromLatin1 r.firstLine := by
    simp only [RawRequest.decode, interpolate, Option.getD_some, hspace, hslash,
      ← fromLatin1_append, RawRequest.firstLine, List.append_assoc]
  have hheaders : (r.decode.rawHeaders.map fun h => h.1 ++ utf16 ": " ++ h.2) =
      (r.headers.map headerLine).map fromLatin1 := by
    simp only [RawRequest.decode, List.map_map]
    apply List.map_congr_left
    intro h _
    simp only [Function.comp_apply, headerLine, hcolon, fromLatin1_append]
  have hlines : ∀ lines : List (List UInt8),
      (lines.map fromLatin1).flatMap (· ++ crlf) = fromLatin1 (lines.flatMap (· ++ crlfBytes)) := by
    intro lines
    induction lines with
    | nil => rfl
    | cons line lines ih =>
      rw [List.map_cons, List.flatMap_cons, List.flatMap_cons, ih, fromLatin1_append,
        fromLatin1_append, hcrlf]
  have hjoined : serializeRequest r.decode =
      ((r.lines.map fromLatin1).flatMap (· ++ crlf)) ++ crlf := by
    rw [serializeRequest, hfirst, hheaders, intercalate_crlf]
    rfl
  rw [hjoined, hlines, hcrlf, ← fromLatin1_append]
  rfl

/-- What the gateway writes for a request. -/
theorem utf8_serializeRequest (r : RawRequest) :
    utf8 (serializeRequest r.decode) = r.recode.bytes := by
  rw [serializeRequest_decode, utf8_fromLatin1, recode_bytes]

/-! ### What the parser delivers -/

theorem splitRequest_trimmed {bytes head : List UInt8} {r : RawRequest}
    (h : splitRequest bytes = some (r, head)) : ∀ f ∈ r.headers, Bare isOws f.2 := by
  have hread : ∀ {line : List UInt8} {f : List UInt8 × List UInt8},
      readHeader line = some f → Bare isOws f.2 := by
    intro line f hf
    obtain ⟨parts, -, hf⟩ := Option.bind_eq_some_iff.mp hf
    obtain rfl := Option.some.inj hf
    exact bare_strip isOws parts.2
  have hall : ∀ {lines : List (List UInt8)} {headers : List (List UInt8 × List UInt8)},
      lines.mapM readHeader = some headers → ∀ f ∈ headers, Bare isOws f.2 := by
    intro lines
    induction lines with
    | nil =>
      intro headers hm f hf
      obtain rfl := Option.some.inj hm
      cases hf
    | cons line lines ih =>
      intro headers hm
      rw [List.mapM_cons] at hm
      obtain ⟨f, hf, hm⟩ := Option.bind_eq_some_iff.mp hm
      obtain ⟨fs, hfs, hm⟩ := Option.bind_eq_some_iff.mp hm
      obtain rfl := Option.some.inj hm
      exact List.forall_mem_cons.mpr ⟨hread hf, ih hfs⟩
  obtain ⟨⟨lines, head⟩, -, h⟩ := Option.bind_eq_some_iff.mp h
  obtain ⟨first, -, h⟩ := Option.bind_eq_some_iff.mp h
  obtain ⟨⟨method, url, version⟩, -, h⟩ := Option.bind_eq_some_iff.mp h
  obtain ⟨headers, hheaders, h⟩ := Option.bind_eq_some_iff.mp h
  obtain ⟨rfl, -⟩ := Prod.mk.inj (Option.some.inj h)
  exact hall hheaders

section
variable [MessageGrammar]
open MessageGrammar

omit [MessageGrammar] in
theorem not_mem_of_isPart {isByte : UInt8 → Bool} {part : List UInt8} {b : UInt8}
    (h : isPart isByte part = true) (hb : isByte b = false) : b ∉ part := by
  intro hmem
  have hall := List.all_eq_true.mp ((Bool.and_eq_true _ _).mp h).2 b hmem
  rw [hb] at hall
  cases hall

theorem Separable.of_valid {r : RawRequest} (h : r.valid = true)
    (htrimmed : ∀ f ∈ r.headers, Bare isOws f.2) : Separable r := by
  simp only [RawRequest.valid, Bool.and_eq_true, List.all_eq_true] at h
  obtain ⟨⟨⟨hmethod, hurl⟩, hversion⟩, hheaders⟩ := h
  refine ⟨⟨not_mem_of_isPart hmethod method_space, not_mem_of_isPart hmethod method_cr⟩,
    ⟨not_mem_of_isPart hurl url_space, not_mem_of_isPart hurl url_cr⟩, ?_, ?_, ?_⟩
  · intro hmem
    unfold isVersion at hversion
    split at hversion
    · rename_i major dot minor hparts
      simp only [Bool.and_eq_true, decide_eq_true_eq, beq_iff_eq] at hversion
      rw [hparts] at hmem
      simp only [List.mem_cons, List.not_mem_nil, or_false] at hmem
      rcases hmem with rfl | rfl | rfl
      · exact absurd hversion.1.1.1 (by decide)
      · exact absurd hversion.1.2 (by decide)
      · exact absurd hversion.2.1 (by decide)
    · cases hversion
  · intro f hf
    obtain ⟨hname, -⟩ := hheaders f hf
    exact ⟨not_mem_of_isPart hname name_colon, not_mem_of_isPart hname name_cr⟩
  · intro f hf
    refine ⟨fun hmem => ?_, htrimmed f hf⟩
    have hbyte := (hheaders f hf).2 _ hmem
    rw [value_cr] at hbyte
    cases hbyte

theorem parseRequest_eq_some {bytes head : List UInt8} {req : IncomingMessage} :
    parseRequest bytes = some (req, head) ↔
      ∃ r, splitRequest bytes = some (r, head) ∧ r.valid = true ∧ req = r.decode := by
  unfold parseRequest
  constructor
  · intro h
    obtain ⟨⟨r, rest⟩, hsplit, h⟩ := Option.bind_eq_some_iff.mp h
    change (if r.valid then some (r.decode, rest) else none) = some (req, head) at h
    split_ifs at h with hvalid
    obtain ⟨rfl, rfl⟩ := Prod.mk.inj (Option.some.inj h)
    exact ⟨r, hsplit, hvalid, rfl⟩
  · rintro ⟨r, hsplit, hvalid, rfl⟩
    rw [hsplit]
    exact if_pos hvalid

/-! ### The round trip -/

/-- No byte of the head is 0x80 or more. -/
structure AsciiRequest (req : IncomingMessage) : Prop where
  method : IsAscii req.method
  url : IsAscii (req.url.getD [])
  version : IsAscii req.httpVersion
  headers : ∀ h ∈ req.rawHeaders, IsAscii h.1 ∧ IsAscii h.2

omit [MessageGrammar] in
theorem RawRequest.decode_inj {r s : RawRequest} (h : r.decode = s.decode) : r = s := by
  have hmethod := fromLatin1_inj (congrArg IncomingMessage.method h)
  have hurl := fromLatin1_inj (Option.some.inj (congrArg IncomingMessage.url h))
  have hversion := fromLatin1_inj (congrArg IncomingMessage.httpVersion h)
  have hheaders : r.headers = s.headers := by
    apply List.map_injective_iff.mpr _ (congrArg IncomingMessage.rawHeaders h)
    intro f g hfg
    obtain ⟨hname, hvalue⟩ := Prod.mk.inj hfg
    exact Prod.ext (fromLatin1_inj hname) (fromLatin1_inj hvalue)
  cases r
  cases s
  simp only [RawRequest.mk.injEq]
  exact ⟨hmethod, hurl, hversion, hheaders⟩

omit [MessageGrammar] in
theorem RawRequest.recode_eq_self_iff (r : RawRequest) :
    r.recode = r ↔ AsciiRequest r.decode := by
  have hfields : (r.headers.map fun h => (Js.recode h.1, Js.recode h.2)) = r.headers ↔
      ∀ h ∈ r.headers, Js.recode h.1 = h.1 ∧ Js.recode h.2 = h.2 := by
    have hself := List.map_inj_left (l := r.headers) (g := id)
      (f := fun h => (Js.recode h.1, Js.recode h.2))
    rw [List.map_id] at hself
    simp only [hself, id_eq, Prod.ext_iff]
  constructor
  · intro h
    refine ⟨Js.recode_eq_self_iff.mp (congrArg RawRequest.method h),
      Js.recode_eq_self_iff.mp (congrArg RawRequest.url h),
      Js.recode_eq_self_iff.mp (congrArg RawRequest.version h), ?_⟩
    intro field hfield
    obtain ⟨f, hf, rfl⟩ := List.mem_map.mp hfield
    obtain ⟨hname, hvalue⟩ := hfields.mp (congrArg RawRequest.headers h) f hf
    exact ⟨Js.recode_eq_self_iff.mp hname, Js.recode_eq_self_iff.mp hvalue⟩
  · intro h
    have hheaders := hfields.mpr fun f hf => by
      obtain ⟨hname, hvalue⟩ := h.headers _ (List.mem_map_of_mem hf)
      exact ⟨Js.recode_eq_self_iff.mpr hname, Js.recode_eq_self_iff.mpr hvalue⟩
    rw [RawRequest.recode, Js.recode_eq_self_iff.mpr h.method, Js.recode_eq_self_iff.mpr h.url,
      Js.recode_eq_self_iff.mpr h.version, hheaders]

/-- What the shard's parser delivers for the bytes of the gateway. -/
theorem opening_parsed_iff (u : Upgrade) {bytes : List UInt8}
    (h : parseRequest bytes = some (u.req, u.head)) :
    parseRequest u.opening = some (u.req, u.head) ↔ AsciiRequest u.req := by
  obtain ⟨r, hsplit, hvalid, hreq⟩ := parseRequest_eq_some.mp h
  have hseparable := Separable.of_valid hvalid (splitRequest_trimmed hsplit)
  have hopening : splitRequest u.opening = some (r.recode, u.head) := by
    rw [Upgrade.opening, hreq, utf8_serializeRequest, splitRequest_bytes hseparable.recode]
  rw [parseRequest_eq_some, hopening, hreq, ← r.recode_eq_self_iff]
  constructor
  · rintro ⟨s, hs, -, hdecode⟩
    obtain ⟨rfl, -⟩ := Prod.mk.inj (Option.some.inj hs)
    exact (RawRequest.decode_inj hdecode).symm
  · intro hself
    exact ⟨r, by rw [hself], hvalid, rfl⟩

end

/-! ### Two requests -/

/-- The characters of a token of HTTP. -/
def isTokenByte (b : UInt8) : Bool :=
  (0x30 ≤ b && b ≤ 0x39) || (0x41 ≤ b && b ≤ 0x5A) || (0x5E ≤ b && b ≤ 0x7A) ||
    b ∈ ([0x21, 0x23, 0x24, 0x25, 0x26, 0x27, 0x2A, 0x2B, 0x2D, 0x2E, 0x7C, 0x7E] : List UInt8)

@[reducible] def plainGrammar : MessageGrammar where
  isMethodByte := isTokenByte
  isUrlByte b := 0x21 ≤ b && b != 0x7F
  isNameByte := isTokenByte
  isValueByte b := b == 0x09 || (0x20 ≤ b && b != 0x7F)
  method_space := by decide
  method_cr := by decide
  url_space := by decide
  url_cr := by decide
  name_colon := by decide
  name_cr := by decide
  value_cr := by decide

/-- A head with this value of a cookie, an empty value and a name that comes twice. -/
def sampleHead (cookie : List UInt8) : List UInt8 :=
  utf8 (utf16 "GET /gs/shard-1 HTTP/1.1\r\nX-Empty:\r\nCookie:  name=") ++ cookie ++
    utf8 (utf16 " \r\nCookie: a=b\r\n\r\n")

def sampleUpgrade (cookie : List UInt8) : Upgrade where
  req := {
    method := utf16 "GET"
    url := some (utf16 "/gs/shard-1")
    httpVersion := utf16 "1.1"
    rawHeaders := [(utf16 "X-Empty", []), (utf16 "Cookie", utf16 "name=" ++ fromLatin1 cookie),
      (utf16 "Cookie", utf16 "a=b")] }
  head := []

theorem opening_parsed_iff_sample :
    @parseRequest plainGrammar (sampleUpgrade [0x61]).opening =
        some ((sampleUpgrade [0x61]).req, (sampleUpgrade [0x61]).head) ↔
      AsciiRequest (sampleUpgrade [0x61]).req :=
  @opening_parsed_iff plainGrammar (sampleUpgrade [0x61]) (sampleHead [0x61]) (by decide +kernel)

/-- The byte 0xE9 arrives at the shard as 0xC3 0xA9. -/
theorem latin1_cookie_changes :
    @parseRequest plainGrammar (sampleHead [0xE9]) =
      some ((sampleUpgrade [0xE9]).req, (sampleUpgrade [0xE9]).head) ∧
    @parseRequest plainGrammar (sampleUpgrade [0xE9]).opening =
      some ((sampleUpgrade [0xC3, 0xA9]).req, []) ∧
    @parseRequest plainGrammar (sampleUpgrade [0xE9]).opening ≠
      some ((sampleUpgrade [0xE9]).req, (sampleUpgrade [0xE9]).head) := by
  decide +kernel

end GachaMind.Gateway
