import Templates.FileError
import Templates.Json

/-!
# Parameters of a template

The names that a template may use without defining them are declared in a JSON text: an array of
names, or an object with such an array in its field `parameters`. An entry is a name, or an object
with a name in its field `name`. `Parameters.ofText` gives the declared names.
-/

namespace Templates

/-- Why a text declares no parameters. -/
inductive ParametersError
  /-- It is no JSON text. -/
  | notJson
  /-- It is neither an array nor an object. -/
  | wrongValue
  /-- It is an object without a field `parameters`. -/
  | noParameters
  /-- The field `parameters` is no array. -/
  | notArray
  /-- The entry of this number is neither a string nor an object. -/
  | badEntry (index : Nat)
  /-- The entry of this number is an object without a name. -/
  | namelessEntry (index : Nat)
  deriving DecidableEq, Repr

/-- The wording of the refusal. What is wrong with a text that is not JSON, and where, is for the
JSON reader to say: `<json>` stands for its message, which is not modelled. -/
def ParametersError.message : ParametersError → String
  | notJson => "<json>"
  | wrongValue => "expected an array of names or an object with a 'parameters' array"
  | noParameters => "expected a 'parameters' array"
  | notArray => "'parameters' must be an array"
  | badEntry index =>
    "parameter #" ++ toString index ++ " must be a string or an object with a 'name'"
  | namelessEntry index => "parameter #" ++ toString index ++ " has no string 'name'"

namespace Parameters

/-- The name that an entry declares. -/
def entryName (index : Nat) : Json → Except ParametersError String
  | .string name => .ok name
  | .object fields =>
    match Json.field? fields "name" with
    | some (.string name) => .ok name
    | _ => .error (.namelessEntry index)
  | _ => .error (.badEntry index)

/-- The entries of a declaration. -/
def entries : Json → Except ParametersError (List Json)
  | .array items => .ok items
  | .object fields =>
    match Json.field? fields "parameters" with
    | some (.array items) => .ok items
    | some _ => .error .notArray
    | none => .error .noParameters
  | _ => .error .wrongValue

/-- The names that a text declares, in order; of several bad entries the first one counts. -/
def ofText (text : String) : Except ParametersError (List String) :=
  match Json.read? text with
  | none => .error .notJson
  | some value => do
    let items ← entries value
    items.zipIdx.mapM fun p => entryName p.2 p.1

end Parameters

/-- Why a parameters file gives no parameters. -/
inductive ParametersFileError
  /-- The file cannot be read. -/
  | unreadable (path : String) (error : FileError)
  /-- Its text declares no parameters. -/
  | invalid (path : String) (error : ParametersError)
  deriving DecidableEq, Repr

/-- The wording of the failure. -/
def ParametersFileError.message : ParametersFileError → String
  | unreadable path error => "failed to read " ++ path ++ ": " ++ error.message
  | invalid path error => "invalid parameters file " ++ path ++ ": " ++ error.message

end Templates
