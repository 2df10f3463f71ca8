import KirbyLang.TypeRelations

/-!
# Filling in generic parameters

`typeSubstituteGenericParams` replaces every parameter at once: what is put in the place of a
parameter is not looked at again, and two substitutions are one.

* `Ty.partAt`: the part of a type at a place; `partAt_substitute`: a substitution keeps the places;
* `composed`: two arrays of bindings as one;
* `substitute_substitute`: the second substitution after the first is the one of both.
-/

namespace KirbyLang

/-! ### Places -/

namespace Ty

/-- The parts a type is made of: elements, parameters and the result, type arguments. -/
def children : Ty → List Ty
  | struct _ typeArgs => typeArgs
  | fn paramTypes returnType => paramTypes ++ [returnType]
  | list elementType => [elementType]
  | array elementType _ => [elementType]
  | _ => []

/-- The part at a place, which is the way to it through the children. -/
def partAt (type : Ty) : List ℕ → Option Ty
  | [] => some type
  | i :: place => type.children[i]?.bind fun child => child.partAt place

end Ty

theorem substituteAll_eq_map (bindings : List Ty) (eraseEmpty : Bool) (types : List Ty) :
    substituteAll bindings eraseEmpty types =
      types.map (substituteGenericParams bindings eraseEmpty) := by
  induction types with
  | nil => rfl
  | cons type types ih => rw [substituteAll, ih, List.map_cons]

theorem children_substitute (bindings : List Ty) (type : Ty) {i : ℕ} {child : Ty}
    (h : type.children[i]? = some child) :
    (typeSubstituteGenericParams type bindings).children[i]? =
      some (typeSubstituteGenericParams child bindings) := by
  have hmap : (type.children.map (substituteGenericParams bindings false))[i]? =
      some (substituteGenericParams bindings false child) := by
    rw [List.getElem?_map, h]
    rfl
  unfold typeSubstituteGenericParams
  cases type with
  | struct | fn | list | array =>
    simpa [substituteGenericParams, Ty.children, substituteAll_eq_map] using hmap
  | _ => cases h

/-- A substitution goes into every part of a type. -/
theorem partAt_substitute (bindings : List Ty) {type part : Ty} {place : List ℕ}
    (h : type.partAt place = some part) :
    (typeSubstituteGenericParams type bindings).partAt place =
      some (typeSubstituteGenericParams part bindings) := by
  induction place generalizing type with
  | nil =>
    cases h
    rfl
  | cons i place ih =>
    obtain ⟨child, hchild, hrest⟩ := Option.bind_eq_some_iff.mp h
    rw [Ty.partAt, children_substitute bindings type hchild]
    exact ih hrest

/-! ### One substitution after another -/

/-- What a slot holds after both arrays: what is in the first, filled in with the second, or what is
in the second. -/
def composedSlot (bindings bindings' : List Ty) (index : ℕ) : Ty :=
  if (slotAt bindings index).isUnknown then slotAt bindings' index
  else typeSubstituteGenericParams (slotAt bindings index) bindings'

/-- Two arrays of bindings as one. -/
def composed (bindings bindings' : List Ty) : List Ty :=
  (List.range (max bindings.length bindings'.length)).map (composedSlot bindings bindings')

theorem slotAt_of_le {bindings : List Ty} {index : ℕ} (h : bindings.length ≤ index) :
    slotAt bindings index = .unknown := by
  unfold slotAt
  rw [List.getD_eq_getElem?_getD, List.getElem?_eq_none h, Option.getD_none]

theorem slotAt_composed (bindings bindings' : List Ty) (index : ℕ) :
    slotAt (composed bindings bindings') index = composedSlot bindings bindings' index := by
  rcases Nat.lt_or_ge index (max bindings.length bindings'.length) with hlt | hge
  · unfold slotAt composed
    rw [List.getD_eq_getElem?_getD, List.getElem?_map, List.getElem?_range hlt]
    rfl
  · rw [slotAt_of_le (by simpa [composed] using hge)]
    have hnone : slotAt bindings index = .unknown := slotAt_of_le (by omega)
    have hnone' : slotAt bindings' index = .unknown := slotAt_of_le (by omega)
    simp [composedSlot, hnone, hnone', Ty.isUnknown]

/-- A type that is there does not become unknown. -/
theorem isUnknown_substitute (bindings : List Ty) {type : Ty} (h : type.isUnknown = false) :
    (typeSubstituteGenericParams type bindings).isUnknown = false := by
  unfold typeSubstituteGenericParams
  cases type with
  | unknown => cases h
  | genericParam index name =>
    simp only [substituteGenericParams]
    split
    · rfl
    · rename_i hbound
      simpa using hbound
  | _ => rfl

/-- A slot for a length is empty or holds a length. -/
def HoldsLength (binding : Ty) : Prop :=
  binding = .unknown ∨ ∃ length, binding = .array .unknown length

mutual

/-- The slots that the lengths of a type are taken from are empty or hold lengths. -/
def LengthsHeld (bindings : List Ty) : Ty → Prop
  | .array elementType length =>
    (length < 0 → HoldsLength (slotAt bindings (arrayLengthSlot length))) ∧
      LengthsHeld bindings elementType
  | .list elementType => LengthsHeld bindings elementType
  | .struct _ typeArgs => AllLengthsHeld bindings typeArgs
  | .fn paramTypes returnType =>
    AllLengthsHeld bindings paramTypes ∧ LengthsHeld bindings returnType
  | .unknown | .unit | .bool | .string | .number _ | .anyNumber | .anyInteger | .trait _
  | .selfPlaceholder | .genericParam _ _ | .opaqueParam _ _ _ => True

def AllLengthsHeld (bindings : List Ty) : List Ty → Prop
  | [] => True
  | type :: types => LengthsHeld bindings type ∧ AllLengthsHeld bindings types

end

/-- Lengths are filled in like parameters. -/
theorem boundLength_boundLength (bindings bindings' : List Ty) {length : ℤ}
    (h : length < 0 → HoldsLength (slotAt bindings (arrayLengthSlot length))) :
    boundLength bindings' (boundLength bindings length) =
      boundLength (composed bindings bindings') length := by
  by_cases hlength : length < 0
  · rcases h hlength with hempty | ⟨bound, hbound⟩
    · have hkept : boundLength bindings length = length := by simp [boundLength, hempty]
      rw [hkept]
      simp [boundLength, slotAt_composed, composedSlot, hempty, Ty.isUnknown]
    · have htaken : boundLength bindings length = bound := by simp [boundLength, hlength, hbound]
      rw [htaken]
      conv_rhs => unfold boundLength
      simp [hlength, slotAt_composed, composedSlot, hbound, Ty.isUnknown,
        typeSubstituteGenericParams, substituteGenericParams]
  · simp [boundLength, hlength]

mutual

/-- Filling in what is left after a substitution is one substitution. -/
theorem substitute_substitute (bindings bindings' : List Ty) (type : Ty)
    (h : LengthsHeld bindings type) :
    substituteGenericParams bindings' false (substituteGenericParams bindings false type) =
      substituteGenericParams (composed bindings bindings') false type := by
  cases type with
  | genericParam index name =>
    simp only [substituteGenericParams, slotAt_composed, composedSlot, Bool.false_eq_true, if_false]
    by_cases hempty : (slotAt bindings index).isUnknown = true
    · simp [hempty, substituteGenericParams]
    · have hbound := isUnknown_substitute bindings' (Bool.eq_false_iff.mpr hempty)
      simp only [hempty, Bool.false_eq_true, if_false, hbound]
      rfl
  | struct name typeArgs =>
    simp only [substituteGenericParams, substituteAll_substituteAll bindings bindings' typeArgs h]
  | fn paramTypes returnType =>
    simp only [substituteGenericParams, substituteAll_substituteAll bindings bindings' paramTypes h.1,
      substitute_substitute bindings bindings' returnType h.2]
  | list elementType =>
    simp only [substituteGenericParams, substitute_substitute bindings bindings' elementType h]
  | array elementType length =>
    simp only [substituteGenericParams, substitute_substitute bindings bindings' elementType h.2,
      boundLength_boundLength bindings bindings' h.1]
  | _ => rfl

theorem substituteAll_substituteAll (bindings bindings' types : List Ty)
    (h : AllLengthsHeld bindings types) :
    substituteAll bindings' false (substituteAll bindings false types) =
      substituteAll (composed bindings bindings') false types := by
  cases types with
  | nil => rfl
  | cons type types =>
    simp only [substituteAll, substitute_substitute bindings bindings' type h.1,
      substituteAll_substituteAll bindings bindings' types h.2]

end

/-- What a substitution leaves in the place of a part that is not made of others. -/
def replaced (bindings : List Ty) : Ty → Ty
  | .genericParam index name =>
    if (slotAt bindings index).isUnknown then .genericParam index name else slotAt bindings index
  | type => type

/-- Every parameter is replaced by just what its slot holds, an opaque parameter by nothing, a length
by the one in its slot; and one substitution after another is a single one. -/
theorem substitution_composes (type : Ty) (bindings bindings' : List Ty) :
    (∀ place part, type.partAt place = some part → part.children = [] →
      (typeSubstituteGenericParams type bindings).partAt place = some (replaced bindings part)) ∧
    (∀ place elementType length, type.partAt place = some (.array elementType length) →
      (typeSubstituteGenericParams type bindings).partAt place =
        some (.array (typeSubstituteGenericParams elementType bindings)
          (boundLength bindings length))) ∧
    (LengthsHeld bindings type → typesEqual
      (typeSubstituteGenericParams (typeSubstituteGenericParams type bindings) bindings')
      (typeSubstituteGenericParams type (composed bindings bindings')) = true) := by
  refine ⟨fun place part hpart hleaf => ?_, fun place elementType length harray =>
    partAt_substitute bindings harray, fun hlengths => ?_⟩
  · rw [partAt_substitute bindings hpart]
    congr 1
    cases part with
    | genericParam => rfl
    | struct name typeArgs =>
      simp only [Ty.children] at hleaf
      rw [hleaf]
      rfl
    | fn => simp [Ty.children] at hleaf
    | list => simp [Ty.children] at hleaf
    | array => simp [Ty.children] at hleaf
    | _ => rfl
  · unfold typeSubstituteGenericParams
    rw [substitute_substitute bindings bindings' type hlengths]
    exact typesEqual_equivalence.refl _

/-- `fun (T, [U; N]) => Box[T]` -/
def pairing : Ty :=
  .fn [.genericParam 0 none, .array (.genericParam 1 none) (-1)]
    (.struct [0x42, 0x6f, 0x78] [.genericParam 0 none])

/-- A list of `U` for the first parameter, and the length 3. -/
def listOfThree : List Ty :=
  [.list (.genericParam 1 none), .unknown, .unknown, .unknown, .array .unknown 3]

/-- The first slots are `[U]` and empty, then `U` is `string`. -/
theorem substitution_composes_pairing :
    (typeSubstituteGenericParams pairing listOfThree).partAt [0] =
        some (.list (.genericParam 1 none)) ∧
      (typeSubstituteGenericParams pairing listOfThree).partAt [1] =
        some (.array (.genericParam 1 none) 3) ∧
      typesEqual
        (typeSubstituteGenericParams (typeSubstituteGenericParams pairing listOfThree)
          [.unit, .string])
        (typeSubstituteGenericParams pairing (composed listOfThree [.unit, .string])) = true ∧
      typeSubstituteGenericParams pairing (composed listOfThree [.unit, .string]) =
        .fn [.list .string, .array .string 3]
          (.struct [0x42, 0x6f, 0x78] [.list .string]) := by
  have hlengths : LengthsHeld listOfThree pairing :=
    ⟨⟨trivial, ⟨fun _ => .inr ⟨3, rfl⟩, trivial⟩, trivial⟩, trivial, trivial⟩
  obtain ⟨hparams, harrays, hcomposes⟩ :=
    substitution_composes pairing listOfThree [.unit, .string]
  exact ⟨hparams [0] _ rfl rfl, harrays [1] _ _ rfl, hcomposes hlengths, rfl⟩

end KirbyLang
