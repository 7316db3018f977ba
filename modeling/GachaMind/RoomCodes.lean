import GachaMind.Shutdown

/-!
# Codes that people write down (packages/shared/src/index.ts)

`normalizeRoomCode` on every way to write a code of `generateRoomCode`, and the entry points that
normalise: the lobby (apps/web/src/app/lobby/page.tsx), the lookup and the deletion of matchmaking
(apps/matchmaking/src/index.ts) and the join of game-session (apps/game-session/src/index.ts).
-/

namespace GachaMind
open GachaMind.Js GachaMind.Shared GachaMind.GameSession KeyedTable

/-! ### Ways to write a code -/

/-- `a` to `z`. -/
def isLowerLetter (c : CodeUnit) : Bool := 0x61 ≤ c && c ≤ 0x7A

def asciiUpper (c : CodeUnit) : CodeUnit := if isLowerLetter c then c - 0x20 else c

def asciiLower (c : CodeUnit) : CodeUnit := if 0x41 ≤ c ∧ c ≤ 0x5A then c + 0x20 else c

/-- The ways to write one character of a code. -/
def writings (k : CodeUnit) : List CodeUnit :=
  [k, asciiLower k] ++
    if k = 0x30 then utf16 "Oo" else if k = 0x31 then utf16 "IiLl" else []

def isNoise (c : CodeUnit) : Bool := isWhiteSpace c || c == 0x2D

/-- `text` is a way to write the code: each of its characters in one of its writings, with any
white space and hyphens before, between and after them. -/
inductive Writes : RoomId → JsString → Prop
  | done : Writes [] []
  | noise {code text : JsString} {c : CodeUnit} (hc : isNoise c = true) (h : Writes code text) :
      Writes code (c :: text)
  | char {code text : JsString} {k c : CodeUnit} (hc : c ∈ writings k) (h : Writes code text) :
      Writes (k :: code) (c :: text)

theorem Writes.self (code : RoomId) : Writes code code := by
  induction code with
  | nil => exact .done
  | cons k code ih => exact .char List.mem_cons_self ih

/-! ### One character -/

theorem alphabet_writings : ∀ k ∈ ROOM_CODE_ALPHABET, ∀ c ∈ writings k, c < 0x80 ∧
    isRoomCodeChar (asciiUpper c) = true ∧ foldLookalike (asciiUpper c) = k := by
  have hall : (ROOM_CODE_ALPHABET.all fun k => (writings k).all fun c => decide (c < 0x80) &&
      isRoomCodeChar (asciiUpper c) && foldLookalike (asciiUpper c) == k) = true := by
    decide +kernel
  simpa only [List.all_eq_true, Bool.and_eq_true, decide_eq_true_eq, beq_iff_eq, and_assoc]
    using hall

theorem asciiUpper_roomCodeChar {c : CodeUnit} (h : isRoomCodeChar c = true) :
    c < 0x80 ∧ asciiUpper c = c := by
  simp only [isRoomCodeChar, Bool.or_eq_true, Bool.and_eq_true, decide_eq_true_eq,
    UInt16.le_iff_toNat_le, UInt16.reduceToNat] at h
  have hlower : ¬ isLowerLetter c = true := by
    simp only [isLowerLetter, Bool.and_eq_true, decide_eq_true_eq, UInt16.le_iff_toNat_le,
      UInt16.reduceToNat]
    omega
  refine ⟨?_, if_neg hlower⟩
  simp only [UInt16.lt_iff_toNat_lt, UInt16.reduceToNat]
  omega

theorem isNoise_asciiUpper {c : CodeUnit} (h : isNoise c = true) :
    isRoomCodeChar (asciiUpper c) = false := by
  have hascii : ∀ n < 128, isNoise n.toUInt16 = true →
      isRoomCodeChar (asciiUpper n.toUInt16) = false := by decide +kernel
  by_cases hc : c.toNat < 128
  · have hsame : c.toNat.toUInt16 = c := UInt16.ofNat_toNat
    have hall := hascii c.toNat hc
    rw [hsame] at hall
    exact hall h
  · have hlower : ¬ isLowerLetter c = true := by
      simp only [isLowerLetter, Bool.and_eq_true, decide_eq_true_eq, UInt16.le_iff_toNat_le,
        UInt16.reduceToNat]
      omega
    rw [asciiUpper, if_neg hlower]
    by_contra hcode
    have hlt := (asciiUpper_roomCodeChar (Bool.eq_true_of_not_eq_false hcode)).1
    simp only [UInt16.lt_iff_toNat_lt, UInt16.reduceToNat] at hlt
    omega

theorem generateRoomCode_alphabet (bytes : List UInt8) :
    ∀ k ∈ generateRoomCode bytes, k ∈ ROOM_CODE_ALPHABET := by
  intro k hk
  obtain ⟨byte, -, rfl⟩ := List.mem_map.mp hk
  have hlt : (byte &&& 31).toNat < ROOM_CODE_ALPHABET.length := by
    have hand : (byte &&& 31).toNat = byte.toNat % 32 := by
      rw [UInt8.toNat_and]
      exact Nat.and_two_pow_sub_one_eq_mod byte.toNat 5
    have hlength : ROOM_CODE_ALPHABET.length = 32 := by decide
    omega
  rw [List.getD_eq_getElem _ _ hlt]
  exact List.getElem_mem hlt

/-! ### Texts -/

section
variable [Runtime]

/-- The case mapping of ASCII, which leaves white space as it is. -/
def UpperCases : Prop :=
  ∀ s : JsString, (∀ c ∈ s, c < 0x80 ∨ isWhiteSpace c = true) →
    Runtime.toUpperCase s = s.map asciiUpper

theorem UpperCases.keepsCodes (h : UpperCases) : KeepsCodes := by
  intro s hs
  rw [h s fun c hc => Or.inl (asciiUpper_roomCodeChar (hs c hc)).1]
  have hmap : s.map asciiUpper = s.map id :=
    List.map_congr_left fun c hc => (asciiUpper_roomCodeChar (hs c hc)).2
  rw [hmap, List.map_id]

omit [Runtime] in
theorem Writes.ascii {code text : JsString} (hcode : ∀ k ∈ code, k ∈ ROOM_CODE_ALPHABET)
    (hw : Writes code text) : ∀ c ∈ text, c < 0x80 ∨ isWhiteSpace c = true := by
  induction hw with
  | done => simp
  | noise hc _ ih =>
    refine List.forall_mem_cons.mpr ⟨?_, ih hcode⟩
    rcases Bool.or_eq_true_iff.mp hc with hspace | hhyphen
    · exact Or.inr hspace
    · rw [beq_iff_eq.mp hhyphen]
      exact Or.inl (by decide)
  | @char code text k c hc _ ih =>
    obtain ⟨hk, hrest⟩ := List.forall_mem_cons.mp hcode
    exact List.forall_mem_cons.mpr ⟨Or.inl (alphabet_writings k hk c hc).1, ih hrest⟩

omit [Runtime] in
/-- The passes behind `toUpperCase`, on what it makes of the text. -/
theorem Writes.fold {code text : JsString} (hcode : ∀ k ∈ code, k ∈ ROOM_CODE_ALPHABET)
    (hw : Writes code text) :
    ((text.map asciiUpper).filter isRoomCodeChar).map foldLookalike = code := by
  induction hw with
  | done => rfl
  | @noise code text c hc _ ih =>
    rw [List.map_cons, List.filter_cons_of_neg (by rw [isNoise_asciiUpper hc]; decide)]
    exact ih hcode
  | @char code text k c hc _ ih =>
    obtain ⟨hk, hrest⟩ := List.forall_mem_cons.mp hcode
    obtain ⟨-, hkeep, hfold⟩ := alphabet_writings k hk c hc
    rw [List.map_cons, List.filter_cons_of_pos hkeep, List.map_cons, hfold, ih hrest]

theorem normalizeRoomCode_writes (h : UpperCases) {code text : JsString}
    (hcode : ∀ k ∈ code, k ∈ ROOM_CODE_ALPHABET) (hw : Writes code text) :
    normalizeRoomCode text = code := by
  rw [normalizeRoomCode, h text (hw.ascii hcode)]
  exact hw.fold hcode

/-! ### The entry points -/

structure RoomAssignment where
  roomId : RoomId
  shard : ShardId
  deriving DecidableEq

/-- `GET /rooms/:roomId`, `none` for its 404. -/
def Redis.lookupRoom (r : Redis) (param : JsString) : Option RoomAssignment :=
  let roomId := normalizeRoomCode param
  let hash := r.room roomId
  if truthy hash.shard then hash.shard.map fun shard => ⟨roomId, shard⟩ else none

/-- The pipeline of `DELETE /rooms/:roomId`. -/
def Redis.closeRoom (r : Redis) (param : JsString) : Redis :=
  let roomId := normalizeRoomCode param
  (r.deleteRoom roomId).unindexRoom roomId

/-- The lobby's `onChange`. -/
def joinCodeOf (value : JsString) : JsString := sliceTo (normalizeRoomCode value) ROOM_CODE_LENGTH

/-- The path parameter of the page that the lobby goes to, `none` where it stays. -/
def handleJoinByCode (joinCode : JsString) : Option JsString :=
  if isRoomCode joinCode then some joinCode else none

/-- `RoomPage`: the code that it looks up and joins. -/
def roomPageCode (param : JsString) : RoomId := normalizeRoomCode param

def enterByCode (value : JsString) : Option RoomId :=
  (handleJoinByCode (joinCodeOf value)).map roomPageCode

/-- What `handleJoin` does with a code: it enters the room that the `RoomManager` holds under it,
or asks Redis for the record of the code. -/
def seekRoom (s : Server) (env : Env) (call : JoinCall) (identity : Option Identity)
    (roomId : RoomId) : Except JsError (Server × List Effect) :=
  match s.rooms.get? roomId with
  | some room => s.enter (s.see env) call identity roomId room
  | none =>
    .ok ({ s with waiting := s.waiting ++ [.assignment call identity roomId none] },
      [.checkAssigned call.socket roomId])

/-- Every entry point goes by this code when it is given this text. The codes of rooms have the
length that `generateRoomCode` gives them by default. -/
structure GoesByCode (code : RoomId) (text : JsString) : Prop where
  lookup : ∀ r : Redis, r.lookupRoom text =
    if truthy (r.room code).shard then (r.room code).shard.map fun shard => ⟨code, shard⟩ else none
  delete : ∀ r : Redis, r.closeRoom text = (r.deleteRoom code).unindexRoom code
  join : ∀ (s : Server) (env : Env) (call : JoinCall) (identity : Option Identity),
    call.identity = .ok identity → s.isOpen call.socket = true → call.roomId = some (.str text) →
      s.afterIdentity env call = seekRoom s env call identity code
  page : roomPageCode text = code
  lobby : code.length = ROOM_CODE_LENGTH → enterByCode text = some code

theorem goesByCode (h : UpperCases) {code text : JsString}
    (hcode : ∀ k ∈ code, k ∈ ROOM_CODE_ALPHABET) (hw : Writes code text) :
    GoesByCode code text := by
  have htext := normalizeRoomCode_writes h hcode hw
  have hself := normalizeRoomCode_writes h hcode (Writes.self code)
  constructor
  case lookup =>
    intro r
    rw [Redis.lookupRoom, htext]
  case delete =>
    intro r
    rw [Redis.closeRoom, htext]
  case join =>
    intro s env call identity hidentity hopen hroomId
    have hstring : asString call.roomId = .ok text := by rw [hroomId]; rfl
    rw [afterIdentity_room env hidentity hopen hstring, htext]
    rfl
  case page => exact htext
  case lobby =>
    intro hlength
    have hslice : joinCodeOf text = code := by
      rw [joinCodeOf, htext, sliceTo, ← hlength, List.take_length]
    have hvalid : isRoomCode code = true := by
      simp only [isRoomCode, hlength, Bool.and_eq_true, List.all_eq_true, decide_eq_true_eq]
      exact ⟨rfl, hcode⟩
    rw [enterByCode, hslice, handleJoinByCode, if_pos hvalid, Option.map_some, roomPageCode, hself]

structure NormalizesCodes : Prop where
  idempotent : ∀ text, normalizeRoomCode (normalizeRoomCode text) = normalizeRoomCode text
  fixes : ∀ bytes, normalizeRoomCode (generateRoomCode bytes) = generateRoomCode bytes
  writings : ∀ bytes text, Writes (generateRoomCode bytes) text →
    normalizeRoomCode text = generateRoomCode bytes
  apart : ∀ bytes bytes' text text', Writes (generateRoomCode bytes) text →
    Writes (generateRoomCode bytes') text' → generateRoomCode bytes ≠ generateRoomCode bytes' →
      normalizeRoomCode text ≠ normalizeRoomCode text'
  entries : ∀ bytes text, Writes (generateRoomCode bytes) text →
    GoesByCode (generateRoomCode bytes) text

theorem normalizes_codes (h : UpperCases) : NormalizesCodes := by
  have hwritings : ∀ bytes text, Writes (generateRoomCode bytes) text →
      normalizeRoomCode text = generateRoomCode bytes :=
    fun bytes text hw => normalizeRoomCode_writes h (generateRoomCode_alphabet bytes) hw
  constructor
  case idempotent => exact normalizeRoomCode_idem h.keepsCodes
  case fixes =>
    intro bytes
    exact hwritings bytes _ (Writes.self _)
  case writings => exact hwritings
  case apart =>
    intro bytes bytes' text text' hw hw' hne
    rw [hwritings bytes text hw, hwritings bytes' text' hw']
    exact hne
  case entries =>
    intro bytes text hw
    exact goesByCode h (generateRoomCode_alphabet bytes) hw

end

/-- The engine on ASCII. -/
@[reducible] def asciiRuntime : Runtime :=
  { plainRuntime with toUpperCase := fun s => s.map asciiUpper }

/-- The code 10AB3 with spaces, a hyphen, small letters and two lookalikes. -/
def sloppyCode : JsString := utf16 " lo-aB 3"

theorem normalizes_codes_sloppy :
    @normalizeRoomCode asciiRuntime sloppyCode = generateRoomCode [1, 0, 10, 11, 3] := by
  have hwritten : Writes (generateRoomCode [1, 0, 10, 11, 3]) sloppyCode :=
    .noise (by decide) (.char (by decide) (.char (by decide) (.noise (by decide)
      (.char (by decide) (.char (by decide) (.noise (by decide) (.char (by decide) .done)))))))
  exact @NormalizesCodes.writings asciiRuntime (@normalizes_codes asciiRuntime fun _ _ => rfl)
    [1, 0, 10, 11, 3] sloppyCode hwritten

end GachaMind
