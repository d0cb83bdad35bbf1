import Tydomio.Model.Data
import Tydomio.Model.Error

/-!
# Strict JSON

`parse_json` of `capture/jsonvalue.py`: UTF-8, no number that is not finite,
no nesting deeper than `MAX_DEPTH`. The decoder and the JSON parser it calls
are a `StrictParser`.
-/

namespace Tydomio

namespace Capture

/-- What `json.loads` raises with the hooks of `parse_json`. -/
inductive StrictError where
  /-- Bad syntax. -/
  | jsonDecodeError
  /-- Too deep a nesting. -/
  | recursionError
  /-- `NotJson`, by a hook. -/
  | notJson (message : String)
  /-- An integer literal over the digit limit. -/
  | valueError

/-- **The decoder and the parser outside the repository.** -/
structure StrictParser where
  /-- `content.decode("utf-8")`. -/
  decode : List UInt8 → Option String
  /-- `json.loads`, with `parse_constant=_reject_constant` and
  `parse_float=_finite_float`. -/
  loads : String → Except StrictError JsonValue

/-- What `parse_json` raises: its own class, or what it lets through. -/
inductive JsonError where
  | notJson (message : String)
  | raised (e : Exc)

/-- `MAX_DEPTH`. -/
def maxDepth : ℕ := 64

mutual

/-- `_checked`. -/
def checked (depth : ℕ) : JsonValue → Except JsonError JsonValue
  | .list items =>
      if maxDepth ≤ depth then .error (.notJson "Nested too deep")
      else (checkedItems depth items).map .list
  | .dict items =>
      if maxDepth ≤ depth then .error (.notJson "Nested too deep")
      else (checkedFields depth items).map .dict
  | value => .ok value

/-- The items of a list, one level deeper. -/
def checkedItems (depth : ℕ) : List JsonValue → Except JsonError (List JsonValue)
  | [] => .ok []
  | item :: items => do
      let item ← checked (depth + 1) item
      let items ← checkedItems depth items
      return item :: items

/-- The values of an object, one level deeper. -/
def checkedFields (depth : ℕ) :
    List (String × JsonValue) → Except JsonError (List (String × JsonValue))
  | [] => .ok []
  | (key, value) :: items => do
      let value ← checked (depth + 1) value
      let items ← checkedFields depth items
      return (key, value) :: items

end

/-- `parse_json`. -/
def parseJson (parser : StrictParser) (content : List UInt8) : Except JsonError JsonValue :=
  match parser.decode content with
  | none => .error (.notJson "Content is not UTF-8")
  | some text =>
      match parser.loads text with
      | .error .jsonDecodeError => .error (.notJson "Invalid JSON")
      | .error .recursionError => .error (.notJson "Nested too deep")
      | .error (.notJson message) => .error (.notJson message)
      -- a `ValueError` of the parser itself is not caught
      | .error .valueError => .error (.raised .valueError)
      | .ok value => checked 0 value

end Capture

end Tydomio
