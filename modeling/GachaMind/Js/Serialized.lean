import GachaMind.Js

/-!
# `JSON.parse(JSON.stringify(v))`

A number that is not finite is written as `null`. Everything else comes back as it was.
-/

namespace GachaMind.Js

def JsNumber.isFinite : JsNumber → Bool
  | .finite _ => true
  | _ => false

mutual
def serialized : Json → Json
  | .null => .null
  | .bool b => .bool b
  | .num n => if n.isFinite then .num n else .null
  | .str s => .str s
  | .arr items => .arr (serializedItems items)
  | .obj fields => .obj (serializedFields fields)

def serializedItems : List Json → List Json
  | [] => []
  | v :: rest => serialized v :: serializedItems rest

def serializedFields : List (JsString × Json) → List (JsString × Json)
  | [] => []
  | (name, v) :: rest => (name, serialized v) :: serializedFields rest
end

mutual
/-- Every number in the value is finite. -/
def survives : Json → Bool
  | .null => true
  | .bool _ => true
  | .num n => n.isFinite
  | .str _ => true
  | .arr items => itemsSurvive items
  | .obj fields => fieldsSurvive fields

def itemsSurvive : List Json → Bool
  | [] => true
  | v :: rest => survives v && itemsSurvive rest

def fieldsSurvive : List (JsString × Json) → Bool
  | [] => true
  | (_, v) :: rest => survives v && fieldsSurvive rest
end

mutual
theorem serialized_of_survives {v : Json} (h : survives v = true) : serialized v = v := by
  cases v with
  | num n =>
    rw [survives] at h
    rw [serialized, if_pos h]
  | arr items =>
    rw [survives] at h
    rw [serialized, serializedItems_of_survive h]
  | obj fields =>
    rw [survives] at h
    rw [serialized, serializedFields_of_survive h]
  | _ => rfl

theorem serializedItems_of_survive {items : List Json} (h : itemsSurvive items = true) :
    serializedItems items = items := by
  cases items with
  | nil => rfl
  | cons v rest =>
    rw [itemsSurvive, Bool.and_eq_true] at h
    rw [serializedItems, serialized_of_survives h.1, serializedItems_of_survive h.2]

theorem serializedFields_of_survive {fields : List (JsString × Json)}
    (h : fieldsSurvive fields = true) : serializedFields fields = fields := by
  cases fields with
  | nil => rfl
  | cons field rest =>
    obtain ⟨name, v⟩ := field
    rw [fieldsSurvive, Bool.and_eq_true] at h
    rw [serializedFields, serialized_of_survives h.1, serializedFields_of_survive h.2]
end

end GachaMind.Js
