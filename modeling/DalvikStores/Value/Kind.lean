import DalvikStores.Violation

/-!
# Taking values apart

Each function asks for a value of one kind and returns its content. Nothing is converted: an
unknown value, or one of another kind, violates what the caller promised.
-/

namespace DalvikStores.Value

def asInt : Value → Except Violation Int32
  | int n => .ok n
  | v => .error (.wrongKind .int v)

def asLong : Value → Except Violation Int64
  | long n => .ok n
  | v => .error (.wrongKind .long v)

def asBoolean : Value → Except Violation Bool
  | boolean b => .ok b
  | v => .error (.wrongKind .boolean v)

def asByte : Value → Except Violation Int8
  | byte n => .ok n
  | v => .error (.wrongKind .byte v)

def asChar : Value → Except Violation UInt16
  | char c => .ok c
  | v => .error (.wrongKind .char v)

def asShort : Value → Except Violation Int16
  | short n => .ok n
  | v => .error (.wrongKind .short v)

def asArray : Value → Except Violation ArrayRef
  | array ref => .ok ref
  | v => .error (.wrongKind .array v)

end DalvikStores.Value
