/-!
# Blocks of text

The description of a value with fields: its name, and between braces one line for each field.
-/

namespace ChunkedTransfer.Text

/-- The block of the given name and fields. Every line after the first starts with `pad`. -/
def block (pad name : String) (fields : List (String × String)) : String :=
  let lines := fields.map fun (field, value) => pad ++ "  " ++ field ++ ": " ++ value ++ ",\n"
  name ++ " \x7b\n" ++ String.join lines ++ pad ++ "\x7d"

end ChunkedTransfer.Text
