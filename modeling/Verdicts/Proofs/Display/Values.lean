/-
What a value of a trace is shown as. The declared type of a stream decides whether its values are kept as integers, reals
or texts, but as long as reals are shown in their exact text, all of these are shown alike: `type_immaterial`.
-/
import Verdicts.Display.Value
import Verdicts.Record.StreamValue

namespace Verdicts

mutual

/-- A value as it is shown where nothing is rounded: a string by its content, an array by its items as they are shown,
and any other value by its text. -/
def Json.shown : Json → String
  | .string written => written
  | .array items => "[" ++ String.intercalate ", " (itemsShown items) ++ "]"
  | value => value.text

def Json.itemsShown : List Json → List String
  | [] => []
  | item :: rest => shown item :: itemsShown rest

end

namespace StreamValue

variable {settings : DisplaySettings}

/-- Without a precision a real is shown in its exact text. -/
theorem display_real (h : settings.realPrecision = none) (written : String) :
    (StreamValue.real written).display settings = written := by
  simp only [display, h]

theorem display_ofNumber (h : settings.realPrecision = none) (type : String) (n : Json.Number) :
    (ofJson type (.number n)).display settings = n.text := by
  unfold ofJson
  split
  · exact display_real h _
  · cases n with
    | int value =>
      dsimp only
      split
      · rfl
      · exact display_real h _
    | float x => exact display_real h _

theorem display_ofString (h : settings.realPrecision = none) (type written : String) :
    (ofJson type (.string written)).display settings = written := by
  unfold ofJson
  split
  · exact display_real h _
  · rfl

mutual

/-- Whatever the type, a value is shown as it is where nothing is rounded. -/
theorem display_ofJson (h : settings.realPrecision = none) : ∀ (type : String) (v : Json),
    (ofJson type v).display settings = v.shown
  | _, .null => rfl
  | _, .bool true => rfl
  | _, .bool false => rfl
  | type, .number n => display_ofNumber h type n
  | type, .string written => display_ofString h type written
  | type, .array items => by
    rw [ofJson, display, Json.shown, displays_ofItems h (itemType type) items]
  | _, .object _ => rfl

theorem displays_ofItems (h : settings.realPrecision = none) : ∀ (type : String) (items : List Json),
    displays settings (ofItems type items) = Json.itemsShown items
  | _, [] => rfl
  | type, item :: rest => by
    rw [ofItems, displays, Json.itemsShown, display_ofJson h type item, displays_ofItems h type rest]

end

/-- Without a precision the declared type of a stream does not change what is shown of its values. -/
theorem type_immaterial (h : settings.realPrecision = none) (type type' : String) (v : Json) :
    (ofJson type v).display settings = (ofJson type' v).display settings ∧
      (ofJson type v).display settings = v.shown := by
  rw [display_ofJson h, display_ofJson h]
  exact ⟨rfl, rfl⟩

/-- As a stream of reals and as one of integers, with an integer, a fraction and an object in one array. -/
theorem type_immaterial_nested :
    let v : Json := .array [.number (.int 7), .string "1/3", .array [.null, .object [("b", .bool true), ("a", .null)]]]
    DisplaySettings.plain.realPrecision = none ∧
      (ofJson "array of real" v).display .plain = (ofJson "int" v).display .plain ∧
      (ofJson "array of real" v).display .plain = v.shown ∧
      v.shown = "[7, 1/3, [null, \x7b\"a\":null,\"b\":true\x7d]]" := by
  intro v
  have hplain : DisplaySettings.plain.realPrecision = none := rfl
  have h := type_immaterial hplain "array of real" "int" v
  exact ⟨rfl, h.1, h.2, by decide +kernel⟩

end StreamValue

end Verdicts
