import KirbyLang.TypeParts

/-!
# Equality and acceptance of types

`typesEqual` is an equivalence, `typeAccepts` is `typesEqual` on types with nothing left open, and
knowing less of a type never makes it refused.

* `Ty.core`: what `typesEqual` sees of a type; `typesEqual_iff_core`: it compares just that;
* `typeAccepts_eq_typesEqual`: what is left of acceptance on types that are fully known;
* `Vaguer`: parts of a type are replaced by the unknown type;
* `typeAccepts_of_vaguer`: acceptance survives that on either side.
-/

namespace KirbyLang

/-! ### Equality -/

namespace Ty

mutual

/-- What `typesEqual` sees of a type. -/
def core : Ty → Ty
  | anyInteger => anyNumber
  | struct name typeArgs => struct name (coreAll typeArgs)
  | fn paramTypes returnType => fn (coreAll paramTypes) returnType.core
  | list elementType => list elementType.core
  | array elementType length => array elementType.core length
  | genericParam index _ => genericParam index none
  | opaqueParam address _ _ => opaqueParam address 0 []
  | unknown => unknown
  | unit => unit
  | bool => bool
  | string => string
  | number kind => number kind
  | anyNumber => anyNumber
  | trait name => trait name
  | selfPlaceholder => selfPlaceholder

def coreAll : List Ty → List Ty
  | [] => []
  | type :: types => type.core :: coreAll types

end

end Ty

mutual

theorem typesEqual_iff_core (a b : Ty) : typesEqual a b = true ↔ a.core = b.core := by
  cases a with
  | struct name typeArgs =>
    cases b with
    | struct otherName otherArgs =>
      simp [typesEqual, Ty.core, allEqual_iff_core typeArgs otherArgs]
    | _ => simp [typesEqual, Ty.core]
  | fn paramTypes returnType =>
    cases b with
    | fn otherParams otherReturn =>
      simp [typesEqual, Ty.core, allEqual_iff_core paramTypes otherParams,
        typesEqual_iff_core returnType otherReturn]
    | _ => simp [typesEqual, Ty.core]
  | list elementType =>
    cases b with
    | list other => simp [typesEqual, Ty.core, typesEqual_iff_core elementType other]
    | _ => simp [typesEqual, Ty.core]
  | array elementType length =>
    cases b with
    | array other otherLength =>
      simp [typesEqual, Ty.core, typesEqual_iff_core elementType other, and_comm]
    | _ => simp [typesEqual, Ty.core]
  | _ => cases b <;> simp [typesEqual, Ty.core]

theorem allEqual_iff_core (as bs : List Ty) :
    allEqual as bs = true ↔ Ty.coreAll as = Ty.coreAll bs := by
  cases as with
  | nil => cases bs <;> simp [allEqual, Ty.coreAll]
  | cons a as =>
    cases bs with
    | nil => simp [allEqual, Ty.coreAll]
    | cons b bs =>
      simp [allEqual, Ty.coreAll, typesEqual_iff_core a b, allEqual_iff_core as bs]

end

/-- Equality of types is an equivalence. -/
theorem typesEqual_equivalence : Equivalence fun a b => typesEqual a b = true where
  refl a := (typesEqual_iff_core a a).mpr rfl
  symm {a b} h := (typesEqual_iff_core b a).mpr ((typesEqual_iff_core a b).mp h).symm
  trans {a b c} h h' := (typesEqual_iff_core a c).mpr
    (((typesEqual_iff_core a b).mp h).trans ((typesEqual_iff_core b c).mp h'))

/-! ### Acceptance of types that are fully known -/

mutual

theorem typeAccepts_eq_typesEqual (expected actual : Ty) (h : FullyKnown expected)
    (h' : FullyKnown actual) : typeAccepts expected actual = typesEqual expected actual := by
  obtain ⟨hknown, hdefinite⟩ := h
  obtain ⟨hknown', hdefinite'⟩ := h'
  have hunknown := FullyKnown.not_isUnknown ⟨hknown', hdefinite'⟩
  cases expected with
  | unknown => cases hknown
  | anyNumber => cases hdefinite
  | anyInteger => cases hdefinite
  | struct name typeArgs =>
    cases actual with
    | unknown => cases hknown'
    | struct otherName otherArgs =>
      simp only [typeAccepts, typesEqual,
        acceptsAll_eq_allEqual typeArgs otherArgs hknown hdefinite hknown' hdefinite']
    | _ => rfl
  | fn paramTypes returnType =>
    cases actual with
    | unknown => cases hknown'
    | fn otherParams otherReturn =>
      simp only [typeIsFullyKnown, isDefinite, Bool.and_eq_true] at hknown hdefinite hknown' hdefinite'
      have hreturn := typeAccepts_eq_typesEqual returnType otherReturn ⟨hknown.2, hdefinite.2⟩
        ⟨hknown'.2, hdefinite'.2⟩
      simp only [typeAccepts, typesEqual, hreturn,
        acceptsAll_eq_allEqual paramTypes otherParams hknown.1 hdefinite.1 hknown'.1 hdefinite'.1]
    | _ => rfl
  | list elementType =>
    cases actual with
    | unknown => cases hknown'
    | list other =>
      exact typeAccepts_eq_typesEqual elementType other ⟨hknown, hdefinite⟩ ⟨hknown', hdefinite'⟩
    | _ => rfl
  | array elementType length =>
    cases actual with
    | unknown => cases hknown'
    | array other otherLength =>
      simp only [isDefinite, Bool.and_eq_true, decide_eq_true_eq] at hdefinite hdefinite'
      have helement := typeAccepts_eq_typesEqual elementType other ⟨hknown, hdefinite.2⟩
        ⟨hknown', hdefinite'.2⟩
      have hlength : ¬ length < 0 := not_lt.mpr hdefinite.1
      simp [typeAccepts, typesEqual, helement, hlength]
    | _ => rfl
  | _ => simp [typeAccepts, hunknown]

theorem acceptsAll_eq_allEqual (expected actual : List Ty) (hknown : allFullyKnown expected = true)
    (hdefinite : allDefinite expected = true) (hknown' : allFullyKnown actual = true)
    (hdefinite' : allDefinite actual = true) :
    acceptsAll expected actual = allEqual expected actual := by
  cases expected with
  | nil => cases actual <;> rfl
  | cons type types =>
    cases actual with
    | nil => rfl
    | cons other others =>
      simp only [allFullyKnown, allDefinite, Bool.and_eq_true] at hknown hdefinite hknown' hdefinite'
      have hhead := typeAccepts_eq_typesEqual type other ⟨hknown.1, hdefinite.1⟩
        ⟨hknown'.1, hdefinite'.1⟩
      have htail := acceptsAll_eq_allEqual types others hknown.2 hdefinite.2 hknown'.2 hdefinite'.2
      simp only [acceptsAll, allEqual, hhead, htail]

end

/-! ### Knowing less -/

mutual

/-- Parts of the type, or all of it, are replaced by the unknown type. -/
inductive Vaguer : Ty → Ty → Prop
  | forgotten (type : Ty) : Vaguer type .unknown
  | same (type : Ty) : Vaguer type type
  | struct {name : Bytes} {typeArgs typeArgs' : List Ty} :
      VaguerAll typeArgs typeArgs' → Vaguer (.struct name typeArgs) (.struct name typeArgs')
  | fn {paramTypes paramTypes' : List Ty} {returnType returnType' : Ty} :
      VaguerAll paramTypes paramTypes' → Vaguer returnType returnType' →
      Vaguer (.fn paramTypes returnType) (.fn paramTypes' returnType')
  | list {elementType elementType' : Ty} :
      Vaguer elementType elementType' → Vaguer (.list elementType) (.list elementType')
  | array {elementType elementType' : Ty} {length : ℤ} :
      Vaguer elementType elementType' →
      Vaguer (.array elementType length) (.array elementType' length)

inductive VaguerAll : List Ty → List Ty → Prop
  | nil : VaguerAll [] []
  | cons {type type' : Ty} {types types' : List Ty} :
      Vaguer type type' → VaguerAll types types' → VaguerAll (type :: types) (type' :: types')

end

mutual

/-- Less is expected. -/
theorem typeAccepts_of_vaguer_expected {expected expected' : Ty} (h : Vaguer expected expected')
    (actual : Ty) (haccepts : typeAccepts expected actual = true) :
    typeAccepts expected' actual = true := by
  cases h with
  | forgotten => simp [typeAccepts]
  | same => exact haccepts
  | struct hargs =>
    cases actual with
    | struct otherName otherArgs =>
      simp only [typeAccepts, Bool.and_eq_true] at haccepts ⊢
      exact ⟨haccepts.1, acceptsAll_of_vaguer_expected hargs otherArgs haccepts.2⟩
    | _ => exact haccepts
  | fn hparams hreturn =>
    cases actual with
    | fn otherParams otherReturn =>
      simp only [typeAccepts, Bool.and_eq_true] at haccepts ⊢
      exact ⟨acceptsAll_of_vaguer_expected hparams otherParams haccepts.1,
        typeAccepts_of_vaguer_expected hreturn otherReturn haccepts.2⟩
    | _ => exact haccepts
  | list helement =>
    cases actual with
    | list other => exact typeAccepts_of_vaguer_expected helement other haccepts
    | _ => exact haccepts
  | array helement =>
    cases actual with
    | array other otherLength =>
      simp only [typeAccepts, Bool.and_eq_true] at haccepts ⊢
      exact ⟨haccepts.1, typeAccepts_of_vaguer_expected helement other haccepts.2⟩
    | _ => exact haccepts

theorem acceptsAll_of_vaguer_expected {expected expected' : List Ty}
    (h : VaguerAll expected expected') (actual : List Ty)
    (haccepts : acceptsAll expected actual = true) : acceptsAll expected' actual = true := by
  cases h with
  | nil => exact haccepts
  | cons hhead htail =>
    cases actual with
    | nil => exact haccepts
    | cons other others =>
      simp only [acceptsAll, Bool.and_eq_true] at haccepts ⊢
      exact ⟨typeAccepts_of_vaguer_expected hhead other haccepts.1,
        acceptsAll_of_vaguer_expected htail others haccepts.2⟩

end

mutual

/-- Less is known of what is given. -/
theorem typeAccepts_of_vaguer_actual {actual actual' : Ty} (h : Vaguer actual actual') (expected : Ty)
    (haccepts : typeAccepts expected actual = true) : typeAccepts expected actual' = true := by
  cases h with
  | forgotten => exact typeAccepts_unknown expected
  | same => exact haccepts
  | struct hargs =>
    cases expected with
    | struct name typeArgs =>
      simp only [typeAccepts, Bool.and_eq_true] at haccepts ⊢
      exact ⟨haccepts.1, acceptsAll_of_vaguer_actual hargs typeArgs haccepts.2⟩
    | unknown => rfl
    | _ => cases haccepts
  | fn hparams hreturn =>
    cases expected with
    | fn paramTypes returnType =>
      simp only [typeAccepts, Bool.and_eq_true] at haccepts ⊢
      exact ⟨acceptsAll_of_vaguer_actual hparams paramTypes haccepts.1,
        typeAccepts_of_vaguer_actual hreturn returnType haccepts.2⟩
    | unknown => rfl
    | _ => cases haccepts
  | list helement =>
    cases expected with
    | list elementType => exact typeAccepts_of_vaguer_actual helement elementType haccepts
    | unknown => rfl
    | _ => cases haccepts
  | array helement =>
    cases expected with
    | array elementType length =>
      simp only [typeAccepts, Bool.and_eq_true] at haccepts ⊢
      exact ⟨haccepts.1, typeAccepts_of_vaguer_actual helement elementType haccepts.2⟩
    | unknown => rfl
    | _ => cases haccepts

theorem acceptsAll_of_vaguer_actual {actual actual' : List Ty} (h : VaguerAll actual actual')
    (expected : List Ty) (haccepts : acceptsAll expected actual = true) :
    acceptsAll expected actual' = true := by
  cases h with
  | nil => exact haccepts
  | cons hhead htail =>
    cases expected with
    | nil => exact haccepts
    | cons type types =>
      simp only [acceptsAll, Bool.and_eq_true] at haccepts ⊢
      exact ⟨typeAccepts_of_vaguer_actual hhead type haccepts.1,
        acceptsAll_of_vaguer_actual htail types haccepts.2⟩

end

/-- Knowing less of a type never makes it refused. -/
theorem typeAccepts_of_vaguer {expected expected' actual actual' : Ty}
    (hexpected : Vaguer expected expected') (hactual : Vaguer actual actual')
    (h : typeAccepts expected actual = true) : typeAccepts expected' actual' = true :=
  typeAccepts_of_vaguer_actual hactual expected' (typeAccepts_of_vaguer_expected hexpected actual h)

/-- Equality is an equivalence, acceptance of types that are fully known is equality, and acceptance
survives that parts of either type become unknown. -/
theorem types_equal_and_accepted (a b c : Ty) :
    typesEqual a a = true ∧ (typesEqual a b = true → typesEqual b a = true) ∧
      (typesEqual a b = true → typesEqual b c = true → typesEqual a c = true) ∧
      (FullyKnown a → FullyKnown b → (typeAccepts a b = true ↔ typesEqual a b = true)) ∧
      ∀ a' b', Vaguer a a' → Vaguer b b' → typeAccepts a b = true → typeAccepts a' b' = true := by
  refine ⟨typesEqual_equivalence.refl a, typesEqual_equivalence.symm, typesEqual_equivalence.trans,
    fun ha hb => ?_, fun a' b' ha hb h => typeAccepts_of_vaguer ha hb h⟩
  rw [typeAccepts_eq_typesEqual a b ha hb]

/-- A box of numbers and a box of strings are different, and each is accepted where it is not known
what the box holds. -/
theorem types_equal_and_accepted_boxes :
    (typeAccepts (.struct [0x42] [.number .i64]) (.struct [0x42] [.string]) = true ↔
      typesEqual (.struct [0x42] [.number .i64]) (.struct [0x42] [.string]) = true) ∧
    typeAccepts (.struct [0x42] [.unknown]) (.struct [0x42] [.number .i64]) = true := by
  have hnumbers : FullyKnown (.struct [0x42] [.number .i64]) := ⟨rfl, rfl⟩
  have hstrings : FullyKnown (.struct [0x42] [.string]) := ⟨rfl, rfl⟩
  obtain ⟨-, -, -, hknown, -⟩ := types_equal_and_accepted (.struct [0x42] [.number .i64])
    (.struct [0x42] [.string]) .unit
  obtain ⟨-, -, -, -, hvaguer⟩ := types_equal_and_accepted (.struct [0x42] [.number .i64])
    (.struct [0x42] [.number .i64]) .unit
  exact ⟨hknown hnumbers hstrings,
    hvaguer _ _ (.struct (.cons (.forgotten _) .nil)) (.same _) (by decide)⟩

end KirbyLang
