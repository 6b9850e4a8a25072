import DenseSystem.Document.Basic
import DenseSystem.Classification
import DenseSystem.Method

/-! # Choices as documents

Methods and statuses go by their names, options by those of their fields.
-/
namespace DenseSystem

namespace Method

def toDocument (method : Method) : Document := .text method.name

def ofDocument? (d : Document) : Option Method := d.choice? name all

end Method

namespace Status

def toDocument (status : Status) : Document := .text status.name

def ofDocument? (d : Document) : Option Status := d.choice? name all

end Status

namespace Options

/-- A field that may be missing but, when present, has to be readable. -/
def field {α : Type} (read : Document → Option α) (default : α) : Option Document → Option α
  | none => some default
  | some d => read d

/-- A record without other fields than those of the options, or a list of the method and whether to
trace. What is missing has its default. -/
def ofDocument? : Document → Option Options
  | .record fields => do
    guard (fields.all fun (name, _) => name == "method" || name == "trace")
    let method ← field Method.ofDocument? .gauss (fields.lookup "method")
    let trace ← field Document.bool? false (fields.lookup "trace")
    return { method, trace }
  | .list items => do
    guard (items.length ≤ 2)
    let method ← field Method.ofDocument? .gauss items[0]?
    let trace ← field Document.bool? false items[1]?
    return { method, trace }
  | _ => none

end Options

end DenseSystem
