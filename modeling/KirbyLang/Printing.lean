import KirbyLang.Memory
import KirbyLang.NumberOps

/-!
# The text of values

How values are printed (`value.c`, `object.c`). A text that cannot be made, because an object has
been freed or a list contains itself, is `none`.
-/

namespace KirbyLang.Vm

/-- The bytes that `%s` writes: up to the first `NUL`. -/
def cString (chars : Bytes) : Bytes := chars.takeWhile (· != 0)

/-- `valueToString` of a value that is not an object. -/
def plainText (libc : Libc) : Value → Bytes
  | .boolean value => text (if value then "true" else "false")
  | .nil => text "nil"
  | .number kind payload => formatNumber libc kind payload
  | .obj _ => []

def objectTypeToString : Obj → Bytes
  | .string _ => text "string"
  | .function _ => text "function"
  | .closure _ => text "function"
  | .native _ => text "function"
  | .upvalue _ => text "upvalue"
  | .struct_ _ => text "struct"
  | .instance_ _ => text "instance"
  | .boundMethod _ => text "function"
  | .list _ => text "list"
  | .array _ => text "array"

def valueTypeToString (gc : GC) : Value → Option Bytes
  | .boolean _ => some (text "bool")
  | .nil => some (text "nil")
  | .number kind _ => some (text kind.info.name)
  | .obj r => (gc.heap r).map objectTypeToString

/-- The name of a string, struct or function as `%s` writes it. -/
def GC.nameText (gc : GC) (name : Ref) : Option Bytes :=
  (gc.string? name).map fun string => cString string.chars

def printFunction (gc : GC) (function : ObjFunction) : Option Bytes :=
  if function.name = null then some (text "<script>")
  else do return text "<fn " ++ (← gc.nameText function.name) ++ text ">"

/-- The texts of the elements, separated by commas. -/
def joinElements (elements : List Bytes) : Bytes :=
  text "[" ++ (elements.intersperse (text ", ")).flatten ++ text "]"

/-- `printValue`, for values nested at most as deeply as the number says. -/
def printValue (libc : Libc) (gc : GC) : ℕ → Value → Option Bytes
  | 0, _ => none
  | depth + 1, .obj r => do
    match ← gc.heap r with
    | .struct_ struct_ => gc.nameText struct_.name
    | .instance_ instance_ =>
      let struct_ ← gc.struct? instance_.struct_
      return (← gc.nameText struct_.name) ++ text " instance"
    | .boundMethod bound =>
      let closure ← gc.closure? bound.method
      printFunction gc (← gc.function? closure.function)
    | .function function => printFunction gc function
    | .native _ => some (text "<native fn>")
    | .string string => some (cString string.chars)
    | .closure closure => printFunction gc (← gc.function? closure.function)
    | .upvalue _ => some (text "upvalue")
    | .list list => return joinElements (← list.values.mapM (printValue libc gc depth))
    | .array array => return joinElements (← array.values.mapM (printValue libc gc depth))
  | _ + 1, value => some (plainText libc value)

def printValueToErr (libc : Libc) (gc : GC) : Value → Option Bytes
  | .obj r => do
    match ← gc.heap r with
    | .string string => some (cString string.chars)
    | .function function => printFunction gc function
    | .closure closure => printFunction gc (← gc.function? closure.function)
    | .native _ => some (text "<fn native>")
    | .upvalue _ => some (text "upvalue")
    | .struct_ struct_ => gc.nameText struct_.name
    | .instance_ instance_ =>
      let struct_ ← gc.struct? instance_.struct_
      return (← gc.nameText struct_.name) ++ text " instance"
    | .boundMethod bound =>
      let closure ← gc.closure? bound.method
      let function ← gc.function? closure.function
      return text "<fn method " ++ (← gc.nameText function.name) ++ text ">"
    | .list list => return text "<list size=" ++ decimal list.values.length ++ text ">"
    | .array array => return text "<array size=" ++ decimal array.values.length ++ text ">"
  | value => some (plainText libc value)

end KirbyLang.Vm
