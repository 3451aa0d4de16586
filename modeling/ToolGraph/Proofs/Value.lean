import ToolGraph.Value.Basic

/-! The entries of maps under text keys. -/
namespace ToolGraph.Value

@[simp] theorem sameKey_text {key : Value} {name : String} :
    key.sameKey (.text name) = true ↔ key = .text name := by
  cases key with
  | text value => simp [sameKey, number?]
  | float value => cases whole : value.toInt? <;> simp [sameKey, number?, whole]
  | _ => simp [sameKey, number?]

theorem entry?_cons (key value : Value) (entries : List (Value × Value)) (name : String) :
    entry? ((key, value) :: entries) (.text name) =
      if key.sameKey (.text name) then some value else entry? entries (.text name) := by
  unfold entry?
  rw [List.find?_cons]
  cases key.sameKey (.text name) <;> rfl

theorem entry?_putEntry (entries : List (Value × Value)) (name other : String) (value : Value) :
    entry? (putEntry entries (.text name) value) (.text other) =
      if name = other then some value else entry? entries (.text other) := by
  induction entries with
  | nil => simp [putEntry, entry?]
  | cons entry rest ih =>
    obtain ⟨key, old⟩ := entry
    simp only [putEntry]
    split
    next here =>
      obtain rfl := sameKey_text.mp here
      simp only [entry?_cons, sameKey_text, text.injEq]
      split <;> rfl
    next here =>
      simp only [entry?_cons, ih, sameKey_text]
      split
      next same =>
        obtain rfl := sameKey_text.mp same
        rw [if_neg (by rintro rfl; simp at here)]
      next => rfl

end ToolGraph.Value
