import Tableflow.OrderedMap

/-!
JSON values. Integers and other numbers are kept apart, and the fields of an object stand in the
order in which their names first came.
-/

namespace Tableflow

inductive Json where
  | null
  | bool (b : Bool)
  | int (n : Int)
  | float (x : Float)
  | string (s : String)
  | array (items : List Json)
  | object (fields : List (String × Json))
  deriving Inhabited

namespace Json

/-- The value under a name, if this is an object that has it. -/
def get? : Json → String → Option Json
  | object fields, name => fields.lookup name
  | _, _ => none

def string? : Json → Option String
  | string s => some s
  | _ => none

theorem sizeOf_lookup_lt {fields : List (String × Json)} {name : String} {value : Json}
    (found : fields.lookup name = some value) : sizeOf value < sizeOf fields := by
  induction fields with
  | nil => simp at found
  | cons field rest ih =>
    obtain ⟨key, here⟩ := field
    simp only [List.lookup_cons] at found
    split at found
    · obtain rfl := Option.some.inj found
      simp only [List.cons.sizeOf_spec, Prod.mk.sizeOf_spec]
      omega
    · have smaller := ih found
      simp only [List.cons.sizeOf_spec]
      omega

theorem sizeOf_getElem?_lt {items : List Json} {index : Nat} {value : Json}
    (found : items[index]? = some value) : sizeOf value < sizeOf items :=
  List.sizeOf_lt_of_mem (List.mem_of_getElem? found)

end Json

end Tableflow
