import KirbyLang.Ast
import KirbyLang.TypeRelations

/-!
# Putting a type in the place of Self

A trait writes `Self` for the type that implements it, and `typeSubstituteSelf` puts that type in
its place before signatures are compared. It does not look into the type arguments of a struct.

* `mentionsSelf`: the type says Self somewhere; `selfInTypeArgs`: in a type argument;
* `SelfReplaced`: two types that differ only where the first says Self;
* `substitutesSelf_iff`: Self is replaced everywhere exactly when no type argument mentions it.
-/

namespace KirbyLang

mutual

def typeSubstituteSelf (type concrete : Ty) : Ty :=
  match type with
  | .selfPlaceholder => concrete
  | .fn paramTypes returnType =>
    .fn (substituteSelfAll paramTypes concrete) (typeSubstituteSelf returnType concrete)
  | .list elementType => .list (typeSubstituteSelf elementType concrete)
  | .array elementType length => .array (typeSubstituteSelf elementType concrete) length
  -- structs are taken to have no Self in them
  | .struct name typeArgs => .struct name typeArgs
  | .unknown => .unknown
  | .unit => .unit
  | .bool => .bool
  | .string => .string
  | .number kind => .number kind
  | .anyNumber => .anyNumber
  | .anyInteger => .anyInteger
  | .trait name => .trait name
  | .genericParam index name => .genericParam index name
  | .opaqueParam address index name => .opaqueParam address index name

def substituteSelfAll (types : List Ty) (concrete : Ty) : List Ty :=
  match types with
  | [] => []
  | type :: types => typeSubstituteSelf type concrete :: substituteSelfAll types concrete

end

mutual

/-- Self stands somewhere in the type. -/
def mentionsSelf : Ty → Bool
  | .selfPlaceholder => true
  | .struct _ typeArgs => anyMentionsSelf typeArgs
  | .fn paramTypes returnType => anyMentionsSelf paramTypes || mentionsSelf returnType
  | .list elementType => mentionsSelf elementType
  | .array elementType _ => mentionsSelf elementType
  | .unknown | .unit | .bool | .string | .number _ | .anyNumber | .anyInteger | .trait _
  | .genericParam _ _ | .opaqueParam _ _ _ => false

def anyMentionsSelf : List Ty → Bool
  | [] => false
  | type :: types => mentionsSelf type || anyMentionsSelf types

end

mutual

/-- Self stands in a type argument of a struct. -/
def selfInTypeArgs : Ty → Bool
  | .struct _ typeArgs => anyMentionsSelf typeArgs
  | .fn paramTypes returnType => anySelfInTypeArgs paramTypes || selfInTypeArgs returnType
  | .list elementType => selfInTypeArgs elementType
  | .array elementType _ => selfInTypeArgs elementType
  | .selfPlaceholder | .unknown | .unit | .bool | .string | .number _ | .anyNumber | .anyInteger
  | .trait _ | .genericParam _ _ | .opaqueParam _ _ _ => false

def anySelfInTypeArgs : List Ty → Bool
  | [] => false
  | type :: types => selfInTypeArgs type || anySelfInTypeArgs types

end

mutual

/-- Two types that differ only in places where the first says Self and the second `concrete`. -/
inductive SelfReplaced (concrete : Ty) : Ty → Ty → Prop
  | same (type : Ty) : SelfReplaced concrete type type
  | self : SelfReplaced concrete .selfPlaceholder concrete
  | struct {name : Bytes} {typeArgs typeArgs' : List Ty} :
      AllSelfReplaced concrete typeArgs typeArgs' →
      SelfReplaced concrete (.struct name typeArgs) (.struct name typeArgs')
  | fn {paramTypes paramTypes' : List Ty} {returnType returnType' : Ty} :
      AllSelfReplaced concrete paramTypes paramTypes' →
      SelfReplaced concrete returnType returnType' →
      SelfReplaced concrete (.fn paramTypes returnType) (.fn paramTypes' returnType')
  | list {elementType elementType' : Ty} :
      SelfReplaced concrete elementType elementType' →
      SelfReplaced concrete (.list elementType) (.list elementType')
  | array {elementType elementType' : Ty} {length : ℤ} :
      SelfReplaced concrete elementType elementType' →
      SelfReplaced concrete (.array elementType length) (.array elementType' length)

inductive AllSelfReplaced (concrete : Ty) : List Ty → List Ty → Prop
  | nil : AllSelfReplaced concrete [] []
  | cons {type type' : Ty} {types types' : List Ty} :
      SelfReplaced concrete type type' → AllSelfReplaced concrete types types' →
      AllSelfReplaced concrete (type :: types) (type' :: types')

end

/-- What putting `concrete` in the place of Self is meant to do. -/
structure SubstitutesSelf (type concrete : Ty) : Prop where
  complete : mentionsSelf (typeSubstituteSelf type concrete) = false
  onlySelf : SelfReplaced concrete type (typeSubstituteSelf type concrete)

variable {concrete : Ty}

mutual

/-- Nothing but Self is ever replaced. -/
theorem selfReplaced_typeSubstituteSelf (type concrete : Ty) :
    SelfReplaced concrete type (typeSubstituteSelf type concrete) := by
  cases type with
  | selfPlaceholder => exact .self
  | fn paramTypes returnType =>
    exact .fn (allSelfReplaced_substituteSelfAll paramTypes concrete)
      (selfReplaced_typeSubstituteSelf returnType concrete)
  | list elementType => exact .list (selfReplaced_typeSubstituteSelf elementType concrete)
  | array elementType length => exact .array (selfReplaced_typeSubstituteSelf elementType concrete)
  | _ => exact .same _

theorem allSelfReplaced_substituteSelfAll (types : List Ty) (concrete : Ty) :
    AllSelfReplaced concrete types (substituteSelfAll types concrete) := by
  cases types with
  | nil => exact .nil
  | cons type types =>
    exact .cons (selfReplaced_typeSubstituteSelf type concrete)
      (allSelfReplaced_substituteSelfAll types concrete)

end

mutual

/-- The Self that is left is the Self in type arguments. -/
theorem mentionsSelf_typeSubstituteSelf (type : Ty) (h : mentionsSelf concrete = false) :
    mentionsSelf (typeSubstituteSelf type concrete) = selfInTypeArgs type := by
  cases type with
  | selfPlaceholder => exact h
  | fn paramTypes returnType =>
    simp only [typeSubstituteSelf, mentionsSelf, selfInTypeArgs,
      anyMentionsSelf_substituteSelfAll paramTypes h, mentionsSelf_typeSubstituteSelf returnType h]
  | list elementType => exact mentionsSelf_typeSubstituteSelf elementType h
  | array elementType length => exact mentionsSelf_typeSubstituteSelf elementType h
  | _ => rfl

theorem anyMentionsSelf_substituteSelfAll (types : List Ty) (h : mentionsSelf concrete = false) :
    anyMentionsSelf (substituteSelfAll types concrete) = anySelfInTypeArgs types := by
  cases types with
  | nil => rfl
  | cons type types =>
    simp only [substituteSelfAll, anyMentionsSelf, anySelfInTypeArgs,
      mentionsSelf_typeSubstituteSelf type h, anyMentionsSelf_substituteSelfAll types h]

end

/-- Self is replaced, and only Self, exactly in the types that do not say Self in a type argument. -/
theorem substitutesSelf_iff (type concrete : Ty) (h : mentionsSelf concrete = false) :
    SubstitutesSelf type concrete ↔ selfInTypeArgs type = false := by
  constructor
  · intro hsubstitutes
    rw [← mentionsSelf_typeSubstituteSelf type h]
    exact hsubstitutes.complete
  · intro hargs
    refine ⟨?_, selfReplaced_typeSubstituteSelf type concrete⟩
    rw [mentionsSelf_typeSubstituteSelf type h]
    exact hargs

/-- The struct `Point`. -/
def pointType : Ty := .struct (ascii "Point") []

/-- `fun equals(self, other: Self): bool`, as the type of a function. -/
theorem substitutesSelf_iff_equals : SubstitutesSelf (.fn [.selfPlaceholder] .bool) pointType :=
  (substitutesSelf_iff (.fn [.selfPlaceholder] .bool) pointType rfl).mpr rfl

/-- `fun wrap(self): Box[Self]`, as the type of a function in the trait. -/
def wrapType : Ty := .fn [] (.struct (ascii "Box") [.selfPlaceholder])

/-- The same method in the implementation for `Point`, where `Self` is `Point`. -/
def pointWrapType : Ty := .fn [] (.struct (ascii "Box") [pointType])

/-- Self is left in `Box[Self]`, and the implementation that writes the same signature is not what
the trait requires. -/
theorem not_substitutesSelf_wrap : mentionsSelf pointType = false ∧
    ¬ SubstitutesSelf wrapType pointType ∧
    typesEqual (typeSubstituteSelf pointWrapType pointType)
      (typeSubstituteSelf wrapType pointType) = false := by
  refine ⟨rfl, fun h => ?_, by decide⟩
  have hcomplete := h.complete
  cases hcomplete

end KirbyLang
