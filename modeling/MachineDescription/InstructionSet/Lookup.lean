import MachineDescription.InstructionSet.Basic

namespace MachineDescription

namespace Name

/-- What stands before and after the last double colon of a text. -/
def splitMember? : List Char → Option (List Char × List Char)
  | [] => none
  | c :: rest =>
    match splitMember? rest with
    | some (scope, member) => some (c :: scope, member)
    | none =>
      match c, rest with
      | ':', ':' :: member => some ([], member)
      | _, _ => none

end Name

namespace InstructionSet

def member? (s : InstructionSet) (scope label : String) : Option Element :=
  (s.format? scope).bind fun f =>
    ((f.item.field? label).map .field).or ((f.item.access? label).map .access)

/-- The definition with a name; if there is none, the member that the last part of the name labels
in the format that the other parts name. -/
def lookup (s : InstructionSet) (name : String) : Option Element :=
  match s.definition? name with
  | some d => some (.definition d)
  | none =>
    (Name.splitMember? name.toList).bind fun (scope, label) =>
      s.member? (.ofList scope) (.ofList label)

end InstructionSet

end MachineDescription
