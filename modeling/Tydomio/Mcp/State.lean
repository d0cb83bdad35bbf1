import Tydomio.Mcp.Model.State
import Tydomio.Readings

/-!
# What a state shows

The names an endpoint gives its fields are its own, and two of them may be
one once they are shown. `ShownUnder` says which field is under which key: a field
of the model under its Tydom name, and under any other key the first of the
unknown fields that is shown so. A state is these values, and the validities
among them that are not up to date; it is withheld where one of these values
is no finite number.
-/

namespace Tydomio

open Common

namespace Mcp

section State

variable (sameLetter : Char → Char → Bool) (secrets : Secrets)

/-! ## The values of some readings -/

section ShownUnder

variable (lax : Lax) (model : UsageModel) (fields : Dict String Data)

end ShownUnder

section Readings

variable {lax : Lax} {model : UsageModel} {data : List Data}

end Readings

/-! ## Items -/

variable (lax : Lax) (model : UsageModel) (entity : Entity)

section Item

variable {lax model entity} {itemId name kind : String}

end Item

end State

/-- Of two names that are one once they are shown, the first is. -/
example : (item (· == ·) ⟨"hunter2", none, "001122AABBCC"⟩ "e:1:2" "Salon" "shutter"
    (some .shutter) ⟨.ofList [
      ("zo\u200bne", ⟨"zo\u200bne", "upToDate", .text "up"⟩),
      ("position", ⟨"position", "expired", .number (.finite 40)⟩),
      ("zone", ⟨"zone", "upToDate", .none⟩)], 0, false⟩).shown
    (· == ·) ⟨"hunter2", none, "001122AABBCC"⟩ ⟨fun _ => none, fun _ => none⟩ =
    .state (.ofList [("position", .number (.finite 40)), ("zone", .text "up")])
      (some (.ofList [("position", "expired")])) none := by decide +kernel

end Mcp

end Tydomio
