import GachaMind.Js.Buffer
import GachaMind.Lib.Machine

/-!
# The gateway (apps/gs-gateway/src/index.ts)

One call of `handleUpgrade`: the lookup of the shard, and the events of the browser's socket and
of the connection to the shard. The bytes of the shard are those that the gateway has read, those
of the browser what it sent after the head. What is written to a socket arrives in order.
-/

namespace GachaMind.Gateway
open GachaMind.Js

/-! ### The request -/

/-- `IncomingMessage`, its raw headers as pairs of name and value. -/
structure IncomingMessage where
  method : JsString
  url : Option JsString
  httpVersion : JsString
  rawHeaders : List (JsString × JsString)

/-- `[A-Za-z0-9_-]`. -/
def isShardChar (c : CodeUnit) : Bool :=
  (0x41 ≤ c && c ≤ 0x5A) || (0x61 ≤ c && c ≤ 0x7A) || (0x30 ≤ c && c ≤ 0x39) || c == 0x5F ||
    c == 0x2D

def shardFromUrl (url : Option JsString) : Option JsString :=
  let text := url.getD []
  if utf16 "/gs/" <+: text then
    let rest := text.drop 4
    let shard := rest.takeWhile isShardChar
    let next := (rest.dropWhile isShardChar).head?
    if shard ≠ [] ∧ (next = none ∨ next = some 0x2F ∨ next = some 0x3F) then some shard else none
  else none

/-- `${v}` of a value that may be undefined. -/
def interpolate (v : Option JsString) : JsString := v.getD (utf16 "undefined")

def crlf : JsString := utf16 "\r\n"

def serializeRequest (req : IncomingMessage) : JsString :=
  let first := req.method ++ utf16 " " ++ interpolate req.url ++ utf16 " HTTP/" ++ req.httpVersion
  let headers := req.rawHeaders.map fun h => h.1 ++ utf16 ": " ++ h.2
  crlf.intercalate (first :: headers) ++ crlf ++ crlf

/-- What `reject` writes. -/
def response (status reason : String) : List UInt8 :=
  utf8 (utf16 ("HTTP/1.1 " ++ status ++ " " ++ reason) ++ crlf ++ utf16 "Connection: close" ++
    crlf ++ crlf)

def notFound : List UInt8 := response "404" "Not Found"
def unavailable : List UInt8 := response "503" "Service Unavailable"
def badGateway : List UInt8 := response "502" "Bad Gateway"

def responses : List (List UInt8) := [notFound, unavailable, badGateway]

/-! ### The two sockets -/

/-- The connection to the shard: not looked up yet, never made, being made, made, destroyed with
an error that is still to be emitted, ended by the shard, destroyed, closed. -/
inductive Upstream where
  | lookup
  | none
  | connecting
  | open
  | failing
  | ended
  | destroyed
  | closed
  deriving DecidableEq

/-- `writable` is that of the browser's socket. `unread` is what the browser has sent and the pipe
has not read. `finished` says that the pipe has ended the connection to the shard. -/
structure Relay where
  upstream : Upstream := .lookup
  writable : Bool := true
  finished : Bool := false
  toBrowser : List UInt8 := []
  toShard : List UInt8 := []
  fromShard : List UInt8 := []
  fromBrowser : List UInt8 := []
  unread : List UInt8 := []
  deriving DecidableEq

/-- The upgrade request that is relayed. -/
structure Upgrade where
  req : IncomingMessage
  head : List UInt8

def Upgrade.opening (u : Upgrade) : List UInt8 := utf8 (serializeRequest u.req) ++ u.head

/-- The answer of `hmget`, an error where Redis failed. -/
abbrev LoadAnswer := Except JsError (Option JsString × Option JsString)

inductive RelayInput where
  | redis (answer : LoadAnswer)
  | connected
  | timeout
  | upstreamError
  | upstreamClose
  | shardData (bytes : List UInt8)
  | shardEnd
  | browserData (bytes : List UInt8)
  | pump (n : ℕ)
  | browserEnd
  | browserError
  | browserClose

namespace Relay

/-- `reject`. -/
def reject (s : Relay) (text : List UInt8) : Relay :=
  if s.writable then { s with toBrowser := s.toBrowser ++ text, writable := false } else s

/-- `upstream.destroy()`. An error that is still to be emitted is emitted all the same. -/
def destroyUpstream (s : Relay) : Relay :=
  match s.upstream with
  | .connecting | .open | .ended => { s with upstream := .destroyed }
  | _ => s

section
variable [Runtime]

/-- `host` and `port` of an answer, if both are truthy. -/
def address (load : Option JsString × Option JsString) : Option (JsString × JsNumber) :=
  if truthy load.1 && truthy load.2 then
    match Runtime.stringToNumber (load.2.getD []) with
    | .nan => none
    | .finite 0 => none
    | port => some (load.1.getD [], port)
  else none

/-- `handleUpgrade` after the lookup, or at once where the URL names no shard. -/
def lookedUp (s : Relay) (u : Upgrade) (answer : LoadAnswer) : Relay :=
  let s := { s with upstream := .none }
  match shardFromUrl u.req.url, answer with
  | none, _ => s.reject notFound
  | some _, .error _ => s.reject unavailable
  | some _, .ok load =>
    match address load with
    | none => s.reject notFound
    | some _ => if s.writable then { s with upstream := .connecting } else s

def step (u : Upgrade) (s : Relay) : RelayInput → Option (Relay × List Unit)
  | .redis answer => if s.upstream = .lookup then some (s.lookedUp u answer, []) else none
  | .connected =>
    if s.upstream = .connecting then
      some ({ s with upstream := .open, toShard := u.opening }, [])
    else none
  | .timeout =>
    if s.upstream = .connecting then some ({ s with upstream := .failing }, []) else none
  | .upstreamError =>
    match s.upstream with
    | .connecting | .open | .failing | .ended =>
      some ({ s.reject badGateway with upstream := .destroyed }, [])
    | _ => none
  | .upstreamClose =>
    match s.upstream with
    | .ended | .destroyed => some ({ s with upstream := .closed, writable := false }, [])
    | _ => none
  | .shardData bytes =>
    if s.upstream = .open then
      let s := { s with fromShard := s.fromShard ++ bytes }
      some (if s.writable then { s with toBrowser := s.toBrowser ++ bytes } else s, [])
    else none
  | .shardEnd =>
    if s.upstream = .open then some ({ s with upstream := .ended, writable := false }, []) else none
  | .browserData bytes =>
    some ({ s with fromBrowser := s.fromBrowser ++ bytes, unread := s.unread ++ bytes }, [])
  | .pump n =>
    if s.upstream = .open ∧ s.finished = false then
      some ({ s with toShard := s.toShard ++ s.unread.take n, unread := s.unread.drop n }, [])
    else none
  | .browserEnd =>
    if s.upstream = .open ∧ s.unread = [] then some ({ s with finished := true }, []) else none
  | .browserError => some ({ s with writable := false }.destroyUpstream, [])
  | .browserClose => some ({ s with writable := false }.destroyUpstream, [])

end

end Relay

/-! ### What the two ends receive -/

/-- The browser has a prefix of what the shard sent, or one response of the gateway and nothing
else; the shard has a prefix of the request, the head and what the browser sent. -/
def Faithful (u : Upgrade) (s : Relay) : Prop :=
  (s.toBrowser <+: s.fromShard ∨ s.toBrowser ∈ responses) ∧
    s.toShard <+: u.opening ++ s.fromBrowser

/-- An error of the connection to the shard comes before any byte of the shard was relayed, or
when the browser's socket is not writable any more. -/
def ErrorInTime (s : Relay) : RelayInput → Prop
  | .upstreamError => s.writable = true → s.fromShard = []
  | _ => True

instance (s : Relay) : ∀ i, Decidable (ErrorInTime s i)
  | .upstreamError => inferInstanceAs (Decidable (s.writable = true → s.fromShard = []))
  | .redis _ | .connected | .timeout | .upstreamClose | .shardData _ | .shardEnd
  | .browserData _ | .pump _ | .browserEnd | .browserError | .browserClose =>
    inferInstanceAs (Decidable True)

/-- The relay with a record of whether every error came in time. -/
def relaySystem [Runtime] (u : Upgrade) : Machine.System (Relay × Bool) RelayInput Unit :=
  (Machine.ofFunction {} (Relay.step u)).observe true fun inTime s i _ _ =>
    inTime && decide (ErrorInTime s i)

theorem append_badGateway {bytes : List UInt8} (h : bytes ≠ []) :
    bytes ++ badGateway ∉ responses := by
  intro hmem
  rcases List.mem_cons.mp hmem with he | hmem
  · have hsuffix : badGateway <:+ notFound := ⟨bytes, he⟩
    revert hsuffix
    decide +kernel
  · rcases List.mem_pair.mp hmem with he | he
    · have hsuffix : badGateway <:+ unavailable := ⟨bytes, he⟩
      revert hsuffix
      decide +kernel
    · exact h (List.append_left_eq_self.mp he)

/-- What the browser has been written: the bytes of the shard, one response, or both. -/
inductive Written (s : Relay) : Bool → Prop
  | relayed (h : s.toBrowser = s.fromShard) : Written s true
  | rejected (h : s.fromShard = []) (hr : s.toBrowser ∈ responses) (hw : s.writable = false) :
      Written s true
  | mixed (h : s.fromShard ≠ []) (hb : s.toBrowser = s.fromShard ++ badGateway)
      (hw : s.writable = false) : Written s false

structure RelayInv (u : Upgrade) (s : Relay) (inTime : Bool) : Prop where
  browser : Written s inTime
  opened : s.upstream = .connecting ∨ s.upstream = .open → s.writable = true
  lookup : s.upstream = .lookup → s.fromShard = []
  waiting : s.upstream = .lookup ∨ s.upstream = .connecting →
    s.toShard = [] ∧ s.unread = s.fromBrowser
  relaying : s.upstream = .open → s.toShard ++ s.unread = u.opening ++ s.fromBrowser
  shard : s.toShard = [] ∨ s.toShard ++ s.unread = u.opening ++ s.fromBrowser

theorem RelayInv.faithful_iff {u : Upgrade} {s : Relay} {inTime : Bool} (h : RelayInv u s inTime) :
    Faithful u s ↔ inTime = true := by
  have hshard : s.toShard <+: u.opening ++ s.fromBrowser := by
    rcases h.shard with hnil | heq
    · rw [hnil]
      exact List.nil_prefix
    · exact ⟨s.unread, heq⟩
  cases h.browser with
  | relayed hb => exact iff_of_true ⟨.inl (by rw [hb]), hshard⟩ rfl
  | rejected _ hr _ => exact iff_of_true ⟨.inr hr, hshard⟩ rfl
  | mixed hne hb _ =>
    refine iff_of_false (fun hf => ?_) Bool.false_ne_true
    rw [Faithful, hb] at hf
    rcases hf.1 with hpre | hmem
    · have hlen := hpre.length_le
      have hpos : 0 < badGateway.length := by decide +kernel
      rw [List.length_append] at hlen
      omega
    · exact append_badGateway hne hmem

section
variable {u : Upgrade} {s t : Relay} {inTime : Bool}

theorem Written.of_eq (h : Written s inTime) (hb : t.toBrowser = s.toBrowser)
    (hs : t.fromShard = s.fromShard) (hw : s.writable = false → t.writable = false) :
    Written t inTime := by
  cases h with
  | relayed h => exact .relayed (hb.trans (h.trans hs.symm))
  | rejected h hr hw' => exact .rejected (hs.trans h) (hb ▸ hr) (hw hw')
  | mixed hne hb' hw' => exact .mixed (hs ▸ hne) (by rw [hb, hb', hs]) (hw hw')

theorem reject_written (h : Written s inTime) (hs : s.fromShard = []) {text : List UInt8}
    (ht : text ∈ responses) : Written (s.reject text) inTime := by
  unfold Relay.reject
  split_ifs with hw
  · cases h with
    | relayed hb =>
      refine .rejected hs ?_ rfl
      change s.toBrowser ++ text ∈ responses
      rwa [hb, hs, List.nil_append]
    | rejected _ _ hw' => cases hw.symm.trans hw'
    | mixed hne _ _ => exact absurd hs hne
  · exact h

theorem badGateway_written (h : Written s inTime) :
    Written (s.reject badGateway) (inTime && decide (ErrorInTime s .upstreamError)) := by
  unfold Relay.reject
  split_ifs with hw
  · cases h with
    | relayed hb =>
      by_cases hs : s.fromShard = []
      · have hin : ErrorInTime s .upstreamError := fun _ => hs
        rw [Bool.true_and, decide_eq_true hin]
        refine .rejected hs ?_ rfl
        change s.toBrowser ++ badGateway ∈ responses
        rw [hb, hs, List.nil_append]
        exact List.mem_cons_of_mem _ (List.mem_cons_of_mem _ List.mem_cons_self)
      · have hlate : ¬ ErrorInTime s .upstreamError := fun hin => hs (hin hw)
        rw [Bool.true_and, decide_eq_false hlate]
        exact .mixed hs (congrArg (· ++ badGateway) hb) rfl
    | rejected _ _ hw' => cases hw.symm.trans hw'
    | mixed _ _ hw' => cases hw.symm.trans hw'
  · have hin : ErrorInTime s .upstreamError := fun hw' => absurd hw' hw
    rw [decide_eq_true hin, Bool.and_true]
    exact h

theorem reject_rest (s : Relay) (text : List UInt8) :
    (s.reject text).toShard = s.toShard ∧ (s.reject text).fromShard = s.fromShard ∧
      (s.reject text).fromBrowser = s.fromBrowser ∧ (s.reject text).unread = s.unread ∧
      (s.reject text).upstream = s.upstream := by
  unfold Relay.reject
  split_ifs <;> exact ⟨rfl, rfl, rfl, rfl, rfl⟩

theorem RelayInv.settle (h : RelayInv u s inTime) {good : Bool} (hb : Written t good)
    (hup : t.upstream ≠ .open ∧ t.upstream ≠ .lookup ∧ t.upstream ≠ .connecting)
    (hto : t.toShard = s.toShard) (hfrom : t.fromBrowser = s.fromBrowser)
    (hunread : t.unread = s.unread) : RelayInv u t good where
  browser := hb
  opened ho := by
    rcases ho with ho | ho
    · exact absurd ho hup.2.2
    · exact absurd ho hup.1
  lookup hl := absurd hl hup.2.1
  waiting hw := by
    rcases hw with hw | hw
    · exact absurd hw hup.2.1
    · exact absurd hw hup.2.2
  relaying ho := absurd ho hup.1
  shard := by
    rw [hto, hfrom, hunread]
    exact h.shard

theorem destroyUpstream_upstream (s : Relay) :
    s.destroyUpstream.upstream ≠ .open ∧ s.destroyUpstream.upstream ≠ .connecting ∧
      (s.destroyUpstream.upstream = .lookup → s.upstream = .lookup) := by
  unfold Relay.destroyUpstream
  cases h : s.upstream <;> simp [h]

theorem destroyUpstream_rest (s : Relay) :
    s.destroyUpstream = { s with upstream := s.destroyUpstream.upstream } := by
  unfold Relay.destroyUpstream
  cases h : s.upstream <;> simp

theorem RelayInv.browserGone (h : RelayInv u s inTime) :
    RelayInv u ({ s with writable := false } : Relay).destroyUpstream inTime := by
  obtain ⟨hopen, hconnecting, hlookup⟩ := destroyUpstream_upstream { s with writable := false }
  rw [destroyUpstream_rest]
  refine ⟨h.browser.of_eq rfl rfl fun _ => rfl, fun ho => ?_, fun hl => h.lookup (hlookup hl),
    fun hw => ?_, fun ho => absurd ho hopen, h.shard⟩
  · rcases ho with hc | ho
    · exact absurd hc hconnecting
    · exact absurd ho hopen
  · rcases hw with hl | hc
    · exact h.waiting (.inl (hlookup hl))
    · exact absurd hc hconnecting

end

section
variable [Runtime] {u : Upgrade} {s t : Relay} {inTime : Bool}

theorem RelayInv.lookedUp (h : RelayInv u s inTime) (hl : s.upstream = .lookup)
    (answer : LoadAnswer) : RelayInv u (s.lookedUp u answer) inTime := by
  have hs := h.lookup hl
  have hnone : Written { s with upstream := .none } inTime := h.browser.of_eq rfl rfl id
  have hreject : ∀ text ∈ responses,
      RelayInv u (({ s with upstream := .none } : Relay).reject text) inTime := by
    intro text ht
    obtain ⟨r1, r2, r3, r4, r5⟩ := reject_rest { s with upstream := .none } text
    exact h.settle (reject_written hnone hs ht) (by rw [r5]; simp) r1 r3 r4
  unfold Relay.lookedUp
  dsimp only
  split
  · exact hreject _ List.mem_cons_self
  · exact hreject _ (List.mem_cons_of_mem _ List.mem_cons_self)
  · split
    · exact hreject _ List.mem_cons_self
    · split_ifs with hw
      · exact ⟨h.browser.of_eq rfl rfl id, fun _ => hw, fun hl' => (by cases hl'),
          fun _ => h.waiting (.inl hl), fun ho => (by cases ho), h.shard⟩
      · exact h.settle hnone (by simp) rfl rfl rfl

/-- Everything that one event can do. -/
inductive RelayMove (u : Upgrade) (s : Relay) : RelayInput → Relay → Prop
  | redis (answer : LoadAnswer) (h : s.upstream = .lookup) :
      RelayMove u s (.redis answer) (s.lookedUp u answer)
  | connected (h : s.upstream = .connecting) :
      RelayMove u s .connected { s with upstream := .open, toShard := u.opening }
  | timeout (h : s.upstream = .connecting) :
      RelayMove u s .timeout { s with upstream := .failing }
  | upstreamError (h : s.upstream ∈ [Upstream.connecting, .open, .failing, .ended]) :
      RelayMove u s .upstreamError { s.reject badGateway with upstream := .destroyed }
  | upstreamClose (h : s.upstream ∈ [Upstream.ended, .destroyed]) :
      RelayMove u s .upstreamClose { s with upstream := .closed, writable := false }
  | relayed (bytes : List UInt8) (h : s.upstream = .open) (hw : s.writable = true) :
      RelayMove u s (.shardData bytes)
        { s with fromShard := s.fromShard ++ bytes, toBrowser := s.toBrowser ++ bytes }
  | dropped (bytes : List UInt8) (h : s.upstream = .open) (hw : s.writable = false) :
      RelayMove u s (.shardData bytes) { s with fromShard := s.fromShard ++ bytes }
  | shardEnd (h : s.upstream = .open) :
      RelayMove u s .shardEnd { s with upstream := .ended, writable := false }
  | browserData (bytes : List UInt8) :
      RelayMove u s (.browserData bytes)
        { s with fromBrowser := s.fromBrowser ++ bytes, unread := s.unread ++ bytes }
  | pump (n : ℕ) (h : s.upstream = .open) (hf : s.finished = false) :
      RelayMove u s (.pump n)
        { s with toShard := s.toShard ++ s.unread.take n, unread := s.unread.drop n }
  | browserEnd (h : s.upstream = .open) (hu : s.unread = []) :
      RelayMove u s .browserEnd { s with finished := true }
  | browserError :
      RelayMove u s .browserError ({ s with writable := false } : Relay).destroyUpstream
  | browserClose :
      RelayMove u s .browserClose ({ s with writable := false } : Relay).destroyUpstream

theorem step_move {i : RelayInput} {os : List Unit} (hs : s.step u i = some (t, os)) :
    RelayMove u s i t := by
  cases i <;> simp only [Relay.step] at hs
  case redis answer =>
    split_ifs at hs with h
    obtain ⟨rfl, -⟩ := Prod.mk.inj (Option.some.inj hs)
    exact .redis answer h
  case connected =>
    split_ifs at hs with h
    obtain ⟨rfl, -⟩ := Prod.mk.inj (Option.some.inj hs)
    exact .connected h
  case timeout =>
    split_ifs at hs with h
    obtain ⟨rfl, -⟩ := Prod.mk.inj (Option.some.inj hs)
    exact .timeout h
  case upstreamError =>
    cases h : s.upstream <;> rw [h] at hs <;> cases hs
    all_goals exact .upstreamError (by rw [h]; decide)
  case upstreamClose =>
    cases h : s.upstream <;> rw [h] at hs <;> cases hs
    all_goals exact .upstreamClose (by rw [h]; decide)
  case shardData bytes =>
    split_ifs at hs with h hw
    · obtain ⟨rfl, -⟩ := Prod.mk.inj (Option.some.inj hs)
      exact .relayed bytes h hw
    · obtain ⟨rfl, -⟩ := Prod.mk.inj (Option.some.inj hs)
      exact .dropped bytes h (Bool.eq_false_iff.mpr hw)
  case shardEnd =>
    split_ifs at hs with h
    obtain ⟨rfl, -⟩ := Prod.mk.inj (Option.some.inj hs)
    exact .shardEnd h
  case browserData bytes =>
    obtain ⟨rfl, -⟩ := Prod.mk.inj (Option.some.inj hs)
    exact .browserData bytes
  case pump n =>
    split_ifs at hs with h
    obtain ⟨rfl, -⟩ := Prod.mk.inj (Option.some.inj hs)
    exact .pump n h.1 h.2
  case browserEnd =>
    split_ifs at hs with h
    obtain ⟨rfl, -⟩ := Prod.mk.inj (Option.some.inj hs)
    exact .browserEnd h.1 h.2
  case browserError =>
    obtain ⟨rfl, -⟩ := Prod.mk.inj (Option.some.inj hs)
    exact .browserError
  case browserClose =>
    obtain ⟨rfl, -⟩ := Prod.mk.inj (Option.some.inj hs)
    exact .browserClose

theorem RelayInv.move {i : RelayInput} (h : RelayInv u s inTime) (hmove : RelayMove u s i t) :
    RelayInv u t (inTime && decide (ErrorInTime s i)) := by
  have hsame : ErrorInTime s i → (inTime && decide (ErrorInTime s i)) = inTime := by
    intro hin
    rw [decide_eq_true hin, Bool.and_true]
  have hnotWaiting : s.upstream = .open → ¬ (s.upstream = .lookup ∨ s.upstream = .connecting) := by
    rintro ho (hl | hc)
    · cases ho.symm.trans hl
    · cases ho.symm.trans hc
  cases hmove with
  | redis answer hl =>
    rw [hsame trivial]
    exact h.lookedUp hl answer
  | connected hc =>
    rw [hsame trivial]
    obtain ⟨-, hunread⟩ := h.waiting (.inr hc)
    have hopening : u.opening ++ s.unread = u.opening ++ s.fromBrowser := by rw [hunread]
    exact ⟨h.browser.of_eq rfl rfl id, fun _ => h.opened (.inl hc), fun hl => (by cases hl),
      fun hw => (by rcases hw with hw | hw <;> cases hw), fun _ => hopening, .inr hopening⟩
  | timeout hc =>
    rw [hsame trivial]
    exact h.settle (h.browser.of_eq rfl rfl id) (by simp) rfl rfl rfl
  | upstreamError hup =>
    obtain ⟨r1, -, r3, r4, -⟩ := reject_rest s badGateway
    exact h.settle ((badGateway_written h.browser).of_eq rfl rfl id) (by simp) r1 r3 r4
  | upstreamClose hup =>
    rw [hsame trivial]
    exact h.settle (h.browser.of_eq rfl rfl fun _ => rfl) (by simp) rfl rfl rfl
  | relayed bytes ho hw =>
    rw [hsame trivial]
    refine ⟨?_, h.opened, fun hl => absurd (.inl hl) (hnotWaiting ho),
      fun hwait => absurd hwait (hnotWaiting ho), h.relaying, h.shard⟩
    cases h.browser with
    | relayed hb => exact .relayed (congrArg (· ++ bytes) hb)
    | rejected _ _ hw' => cases hw.symm.trans hw'
    | mixed _ _ hw' => cases hw.symm.trans hw'
  | dropped bytes ho hw => cases hw.symm.trans (h.opened (.inr ho))
  | shardEnd ho =>
    rw [hsame trivial]
    exact h.settle (h.browser.of_eq rfl rfl fun _ => rfl) (by simp) rfl rfl rfl
  | browserData bytes =>
    rw [hsame trivial]
    have hmore : s.toShard ++ s.unread = u.opening ++ s.fromBrowser →
        s.toShard ++ (s.unread ++ bytes) = u.opening ++ (s.fromBrowser ++ bytes) := by
      intro heq
      rw [← List.append_assoc, heq, List.append_assoc]
    refine ⟨h.browser.of_eq rfl rfl id, h.opened, h.lookup, fun hw => ?_,
      fun ho => hmore (h.relaying ho), h.shard.imp_right hmore⟩
    obtain ⟨hto, hunread⟩ := h.waiting hw
    exact ⟨hto, congrArg (· ++ bytes) hunread⟩
  | pump n ho hf =>
    rw [hsame trivial]
    have hmoved : s.toShard ++ s.unread.take n ++ s.unread.drop n = u.opening ++ s.fromBrowser := by
      rw [List.append_assoc, List.take_append_drop]
      exact h.relaying ho
    exact ⟨h.browser.of_eq rfl rfl id, h.opened, h.lookup,
      fun hwait => absurd hwait (hnotWaiting ho), fun _ => hmoved, .inr hmoved⟩
  | browserEnd ho hu =>
    rw [hsame trivial]
    exact ⟨h.browser.of_eq rfl rfl id, h.opened, h.lookup, h.waiting, h.relaying, h.shard⟩
  | browserError =>
    rw [hsame trivial]
    exact h.browserGone
  | browserClose =>
    rw [hsame trivial]
    exact h.browserGone

theorem relayInv_reachable {s : Relay × Bool}
    (hr : Machine.Reachable (relaySystem u) s) : RelayInv u s.1 s.2 := by
  refine hr.recorded_free (J := fun _ => True) (I := RelayInv u) (fun _ _ => trivial) ?_ ?_
  · rintro s rfl
    exact ⟨.relayed rfl, fun _ => rfl, fun _ => rfl, fun _ => ⟨rfl, rfl⟩,
      fun ho => (by cases ho), .inl rfl⟩
  · intro s inTime i t os _ h hstep
    exact h.move (step_move hstep)

/-- In every order of events, both ends receive what they should exactly where every error of
the connection to the shard came in time. -/
theorem relay_faithful_iff (u : Upgrade) (s : Relay × Bool)
    (hr : Machine.Reachable (relaySystem u) s) : Faithful u s.1 ↔ s.2 = true :=
  (relayInv_reachable hr).faithful_iff

end

/-! ### Runs on fixed inputs -/

/-- The engine of the runs below: every port is 4001. -/
@[reducible] def portRuntime : Runtime where
  toLowerCase s := s
  toUpperCase s := s
  stringToNumber _ := .finite 4001
  numberToString _ := []

def upgradeOf (url : String) : Upgrade where
  req := ⟨utf16 "GET", some (utf16 url), utf16 "1.1", [(utf16 "Upgrade", utf16 "websocket")]⟩
  head := []

def loadFound : LoadAnswer := .ok (some (utf16 "10.0.0.5"), some (utf16 "4001"))

theorem relay_faithful_refused : ∃ s os,
    Machine.Run (@relaySystem portRuntime (upgradeOf "/gs/4001"))
      [.redis loadFound, .browserData [1, 2], .timeout, .upstreamError, .upstreamClose] s os ∧
    s.1.toBrowser = badGateway ∧ (Faithful (upgradeOf "/gs/4001") s.1 ↔ s.2 = true) :=
  ⟨_, _, Machine.exec_observe_run (by decide +kernel), by decide +kernel,
    @relay_faithful_iff portRuntime (upgradeOf "/gs/4001") _
      ⟨_, _, Machine.exec_observe_run (by decide +kernel)⟩⟩

/-- The shard has answered and its connection is reset: the response of the gateway follows the
bytes already relayed. -/
theorem response_after_relay : ∃ s os,
    Machine.Run (@relaySystem portRuntime (upgradeOf "/gs/4001"))
      [.redis loadFound, .connected, .shardData [0x81, 0x00], .upstreamError] s os ∧
    s.1.toBrowser = [0x81, 0x00] ++ badGateway ∧ ¬ Faithful (upgradeOf "/gs/4001") s.1 := by
  refine ⟨_, _, Machine.exec_observe_run (by decide +kernel), by decide +kernel, ?_⟩
  rintro ⟨hpre | hresponse, -⟩
  · revert hpre
    decide +kernel
  · revert hresponse
    decide +kernel

end GachaMind.Gateway
