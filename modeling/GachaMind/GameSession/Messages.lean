import GachaMind.GameSession.Handlers

/-!
# What clients may send

A frame is any JSON value. `WellFormed` says that it has the type `ClientToServerMessage`;
`printable` says that the conversions which `handleDraw` makes of a stroke do not throw.
-/

namespace GachaMind.GameSession
open GachaMind.Js GachaMind.Shared KeyedTable

/-! ### Messages (packages/shared/src/index.ts) -/

def isText : Option Json → Bool
  | some (.str _) => true
  | _ => false

def isNumber : Option Json → Bool
  | some (.num _) => true
  | _ => false

def isPoint (v : Json) : Bool :=
  isNumber (v.field (utf16 "x")) && isNumber (v.field (utf16 "y"))

def isPointList : Option Json → Bool
  | some (.arr points) => points.all isPoint
  | _ => false

def isStroke : Option Json → Bool
  | some v => isPointList (v.field (utf16 "points")) && isText (v.field (utf16 "color")) &&
      isNumber (v.field (utf16 "width"))
  | none => false

/-- The value has the type `ClientToServerMessage`. -/
def isClientMessage (v : Json) : Bool :=
  let type := v.field (utf16 "type")
  if isString type (utf16 "join") then
    isText (v.field (utf16 "roomId")) && isText (v.field (utf16 "nickname"))
  else if isString type (utf16 "chat") then isText (v.field (utf16 "text"))
  else if isString type (utf16 "draw") then isStroke (v.field (utf16 "stroke"))
  else isString type (utf16 "draw-clear") || isString type (utf16 "start-game")

def WellFormed (raw : Option Json) : Prop := ∃ v, raw = some v ∧ isClientMessage v = true

/-! ### The conversions of a stroke -/

mutual
/-- `String(v)` does not throw: no object that it has to print shadows `toString`. -/
def printable : Json → Bool
  | .arr items => printableItems items
  | .obj fields => !shadowsToString fields
  | _ => true

def printableItems : List Json → Bool
  | [] => true
  | v :: items => printable v && printableItems items
end

section
variable [Runtime]

mutual
theorem toStr_ok_iff : (v : Json) → ((∃ s, toStr v = .ok s) ↔ printable v = true)
  | .null => by simp [toStr, printable]
  | .bool b => by simp [toStr, printable]
  | .num n => by simp [toStr, printable]
  | .str s => by simp [toStr, printable]
  | .arr items => by
    rw [toStr, printable]
    exact joinItems_ok_iff items
  | .obj fields => by
    rw [toStr, printable]
    split_ifs with h <;> simp [h]

theorem joinItems_ok_iff : (items : List Json) →
    ((∃ s, joinItems items = .ok s) ↔ printableItems items = true)
  | [] => by simp [joinItems, printableItems]
  | v :: items => by
    have hv := toStr_ok_iff v
    have hitems := joinItems_ok_iff items
    rw [printableItems, Bool.and_eq_true, ← hitems, joinItems]
    by_cases hnull : v.isNull = true
    · have hp : printable v = true := by
        cases v <;> simp [Json.isNull, printable] at hnull ⊢
      rw [if_pos hnull]
      constructor
      · intro h
        obtain ⟨s, hs⟩ := h
        obtain ⟨item, -, hs⟩ := bind_eq_ok.mp hs
        obtain ⟨tail, ht, -⟩ := bind_eq_ok.mp hs
        exact ⟨hp, tail, ht⟩
      · intro h
        obtain ⟨tail, ht⟩ := h.2
        exact ⟨_, bind_eq_ok.mpr ⟨[], rfl, bind_eq_ok.mpr ⟨tail, ht, rfl⟩⟩⟩
    · rw [← hv, if_neg hnull]
      constructor
      · intro h
        obtain ⟨s, hs⟩ := h
        obtain ⟨item, hi, hs⟩ := bind_eq_ok.mp hs
        obtain ⟨tail, ht, -⟩ := bind_eq_ok.mp hs
        exact ⟨⟨item, hi⟩, ⟨tail, ht⟩⟩
      · intro h
        obtain ⟨⟨item, hi⟩, ⟨tail, ht⟩⟩ := h
        exact ⟨_, bind_eq_ok.mpr ⟨item, hi, bind_eq_ok.mpr ⟨tail, ht, rfl⟩⟩⟩
end

theorem toNumber_ok_iff (v : Option Json) :
    (∃ n, toNumber v = .ok n) ↔ v.all printable = true := by
  cases v with
  | none => simp [toNumber]
  | some v =>
    cases v with
    | arr items =>
      rw [Option.all_some, printable, ← joinItems_ok_iff]
      constructor
      · intro hx
        obtain ⟨n, hn⟩ := hx
        obtain ⟨s, hs, -⟩ := bind_eq_ok.mp hn
        exact ⟨s, hs⟩
      · intro hx
        obtain ⟨s, hs⟩ := hx
        exact ⟨_, bind_eq_ok.mpr ⟨s, hs, rfl⟩⟩
    | obj fields =>
      rw [Option.all_some, printable, toNumber]
      split_ifs with h <;> simp [h]
    | _ => simp [toNumber, printable]

theorem sanitizeStroke_ok_iff (stroke : Option Json) :
    (∃ s, sanitizeStroke stroke = .ok s) ↔
      printable (strokeColor stroke) = true ∧
        (strokeField stroke "width").all printable = true := by
  rw [← toStr_ok_iff, ← toNumber_ok_iff]
  constructor
  · intro h
    obtain ⟨s, hs⟩ := h
    obtain ⟨color, hc, hs⟩ := bind_eq_ok.mp hs
    obtain ⟨width, hw, -⟩ := bind_eq_ok.mp hs
    exact ⟨⟨color, hc⟩, ⟨width, hw⟩⟩
  · intro h
    obtain ⟨⟨color, hc⟩, ⟨width, hw⟩⟩ := h
    exact ⟨_, bind_eq_ok.mpr ⟨color, hc, bind_eq_ok.mpr ⟨width, hw, rfl⟩⟩⟩

end

/-! ### Fields of a frame -/

theorem wellFormed_some {v : Json} : WellFormed (some v) ↔ isClientMessage v = true :=
  ⟨fun ⟨_, hw, h⟩ => Option.some.inj hw ▸ h, fun h => ⟨v, rfl, h⟩⟩

theorem isString_other {v : Option Json} {a b : JsString} (h : isString v a = true) (hne : a ≠ b) :
    isString v b = false := by
  unfold isString at h ⊢
  split at h
  · have ha := of_decide_eq_true h
    subst ha
    exact decide_eq_false hne
  · cases h

theorem isText_iff {v : Option Json} : isText v = true ↔ ∃ text, asString v = .ok text := by
  unfold isText asString
  split <;> simp

theorem asString_ok {v : Option Json} {text : JsString} :
    asString v = .ok text ↔ v = some (.str text) := by
  unfold asString
  split
  · simp
  · rename_i hno
    exact iff_of_false (fun h => by cases h) fun h => hno text h

theorem asString_error {v : Option Json} (h : ¬ isText v = true) :
    asString v = .error .typeError := by
  cases v with
  | none => rfl
  | some j =>
    cases j with
    | str text => exact absurd rfl h
    | _ => rfl

theorem printable_of_isNumber {j : Json} (h : isNumber (some j) = true) : printable j = true := by
  cases j <;> simp [isNumber, printable] at h ⊢

theorem stroke_printable {stroke : Option Json} (h : isStroke stroke = true) :
    printable (strokeColor stroke) = true ∧
      (strokeField stroke "width").all printable = true := by
  cases stroke with
  | none => cases h
  | some j =>
    cases j with
    | obj fields =>
      simp only [isStroke, Json.field, Bool.and_eq_true] at h
      have hcolor : strokeField (some (.obj fields)) "color" = lookupField (utf16 "color") fields :=
        rfl
      have hwidth : strokeField (some (.obj fields)) "width" = lookupField (utf16 "width") fields :=
        rfl
      rw [strokeColor, hcolor, hwidth]
      constructor
      · cases hc : lookupField (utf16 "color") fields with
        | none => simp [isText, hc] at h
        | some color =>
          rw [hc] at h
          cases color <;> simp [isText, printable] at h ⊢
      · cases hw : lookupField (utf16 "width") fields with
        | none => rfl
        | some width =>
          rw [hw] at h
          exact printable_of_isNumber h.2
    | _ => simp [isStroke, Json.field, isPointList] at h

end GachaMind.GameSession
