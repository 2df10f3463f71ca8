import KirbyLang.Types

/-!
# Lining types up

A type with generic parameters lined up with a type that may stand for it. `partsOf` lists what
each parameter meets, from left to right.

* `typeBindGenericParams_eq`: binding fills each slot with the first part it meets;
* `slotAt_fillParts`: what a slot holds afterwards;
* `typeAccepts_substitute_iff`: a type with its parameters replaced accepts another exactly if the
  shape does and every part is accepted;
* `typeAccepts_final_iff`: when a type that fitted the shape is accepted in the end.
-/

namespace KirbyLang

/-- What a parameter, or a length placeholder, meets. -/
inductive Part
  | type (index : ℕ) (name : Option Bytes) (actual : Ty)
  | length (placeholder : ℤ) (actual : ℤ)
  deriving Repr

namespace Part

def slot : Part → ℕ
  | type index _ _ => index
  | length placeholder _ => arrayLengthSlot placeholder

/-- What the part puts into an empty slot; unknown when it puts nothing there. -/
def filling : Part → Ty
  | type _ _ actual => actual
  | length _ actual => if 0 ≤ actual then .array .unknown actual else .unknown

/-- Whether what a slot holds accepts the part. An empty slot leaves the parameter in place. -/
def fits (content : Ty) : Part → Bool
  | type index name actual =>
    typeAccepts (if content.isUnknown then .genericParam index name else content) actual
  | length _ actual =>
    match content with
    | .array _ bound => decide (bound < 0) || decide (bound = actual)
    | _ => true

end Part

mutual

def partsOf (pattern actual : Ty) : List Part :=
  match pattern with
  | .genericParam index name => [.type index name actual]
  | .list elementType =>
    match actual with
    | .list other => partsOf elementType other
    | _ => []
  | .struct name typeArgs =>
    match actual with
    | .struct otherName otherArgs =>
      if name = otherName ∧ typeArgs.length = otherArgs.length then partsOfAll typeArgs otherArgs
      else []
    | _ => []
  | .array elementType length =>
    match actual with
    | .array other otherLength =>
      partsOf elementType other ++ if length < 0 then [.length length otherLength] else []
    | _ => []
  | .fn paramTypes returnType =>
    match actual with
    | .fn otherParams otherReturn =>
      if otherParams.length = paramTypes.length then
        partsOfAll paramTypes otherParams ++ partsOf returnType otherReturn
      else []
    | _ => []
  | .unknown | .unit | .bool | .string | .number _ | .anyNumber | .anyInteger | .trait _
  | .selfPlaceholder | .opaqueParam _ _ _ => []

def partsOfAll : List Ty → List Ty → List Part
  | pattern :: patterns, actual :: actuals => partsOf pattern actual ++ partsOfAll patterns actuals
  | [], _ => []
  | _ :: _, [] => []

end

/-! ### Filling slots -/

def fillPart (bindings : List Ty) (part : Part) : List Ty :=
  if part.filling.isUnknown then bindings else fillSlot bindings part.slot part.filling

mutual

theorem typeBindGenericParams_eq (pattern actual : Ty) (bindings : List Ty) :
    typeBindGenericParams pattern actual bindings =
      (partsOf pattern actual).foldl fillPart bindings := by
  cases pattern with
  | genericParam index name => rfl
  | list elementType =>
    cases actual with
    | list other => exact typeBindGenericParams_eq elementType other bindings
    | _ => rfl
  | struct name typeArgs =>
    cases actual with
    | struct otherName otherArgs =>
      by_cases h : name = otherName ∧ typeArgs.length = otherArgs.length
      · simp only [typeBindGenericParams, partsOf, if_pos h]
        exact bindAll_eq typeArgs otherArgs bindings
      · simp only [typeBindGenericParams, partsOf, if_neg h, List.foldl_nil]
    | _ => rfl
  | array elementType length =>
    cases actual with
    | array other otherLength =>
      simp only [typeBindGenericParams, partsOf, List.foldl_append,
        typeBindGenericParams_eq elementType other bindings]
      by_cases hlength : length < 0
      · by_cases hother : 0 ≤ otherLength
        · simp [hlength, hother, fillPart, Part.filling, Part.slot, Ty.isUnknown]
        · simp [hlength, hother, fillPart, Part.filling, Ty.isUnknown]
      · simp [hlength]
    | _ => rfl
  | fn paramTypes returnType =>
    cases actual with
    | fn otherParams otherReturn =>
      by_cases h : otherParams.length = paramTypes.length
      · simp only [typeBindGenericParams, partsOf, if_pos h, List.foldl_append,
          bindAll_eq paramTypes otherParams bindings,
          typeBindGenericParams_eq returnType otherReturn _]
      · simp only [typeBindGenericParams, partsOf, if_neg h, List.foldl_nil]
    | _ => rfl
  | _ => rfl

theorem bindAll_eq (patterns actuals bindings : List Ty) :
    bindAll patterns actuals bindings = (partsOfAll patterns actuals).foldl fillPart bindings := by
  cases patterns with
  | nil => rfl
  | cons pattern patterns =>
    cases actuals with
    | nil => rfl
    | cons actual actuals =>
      simp only [bindAll, partsOfAll, List.foldl_append,
        typeBindGenericParams_eq pattern actual bindings, bindAll_eq patterns actuals _]

end

/-- The first part that fills a slot. -/
def firstFilling (parts : List Part) (slot : ℕ) : Ty :=
  ((parts.find? fun part => part.slot == slot && !part.filling.isUnknown).map Part.filling).getD
    .unknown

/-- What a slot holds after parts were lined up: what it held before, else the first of them. -/
def slotAfter (bindings : List Ty) (parts : List Part) (slot : ℕ) : Ty :=
  if slot < bindings.length ∧ (slotAt bindings slot).isUnknown then firstFilling parts slot
  else slotAt bindings slot

@[simp] theorem length_fillPart (bindings : List Ty) (part : Part) :
    (fillPart bindings part).length = bindings.length := by
  unfold fillPart fillSlot
  split <;> [rfl; split <;> simp]

theorem slotAt_set (bindings : List Ty) {index : ℕ} (type : Ty) (slot : ℕ)
    (h : index < bindings.length) :
    slotAt (bindings.set index type) slot = if index = slot then type else slotAt bindings slot := by
  unfold slotAt
  by_cases hslot : index = slot
  · subst hslot
    simp [h]
  · simp [hslot, List.getElem?_set_ne hslot]

/-- A slot that is full, or not there, stays as it is. -/
theorem slotAt_fillPart_of_full {bindings : List Ty} {slot : ℕ} (part : Part)
    (h : ¬ (slot < bindings.length ∧ (slotAt bindings slot).isUnknown = true)) :
    slotAt (fillPart bindings part) slot = slotAt bindings slot := by
  unfold fillPart fillSlot
  split
  · rfl
  · split
    · rename_i hfill
      rw [slotAt_set _ _ _ hfill.1, if_neg]
      rintro rfl
      exact h hfill
    · rfl

/-- An empty slot takes what the part has for it. -/
theorem slotAt_fillPart_of_empty {bindings : List Ty} {slot : ℕ} (part : Part)
    (h : slot < bindings.length ∧ (slotAt bindings slot).isUnknown = true) :
    slotAt (fillPart bindings part) slot = if part.slot = slot then part.filling else .unknown := by
  have hempty : slotAt bindings slot = .unknown := Ty.eq_unknown h.2
  unfold fillPart fillSlot
  by_cases hfill : part.filling.isUnknown = true
  · rw [if_pos hfill, hempty, Ty.eq_unknown hfill]
    simp
  · rw [if_neg hfill]
    by_cases hslot : part.slot = slot
    · subst hslot
      rw [if_pos h, slotAt_set _ _ _ h.1]
      simp
    · rw [if_neg hslot]
      split
      · rename_i hfree
        rw [slotAt_set _ _ _ hfree.1, if_neg hslot, hempty]
      · exact hempty

theorem slotAt_fillParts (parts : List Part) (bindings : List Ty) (slot : ℕ) :
    slotAt (parts.foldl fillPart bindings) slot = slotAfter bindings parts slot := by
  induction parts generalizing bindings with
  | nil =>
    unfold slotAfter
    split
    · rename_i h
      exact Ty.eq_unknown h.2
    · rfl
  | cons part parts ih =>
    rw [List.foldl_cons, ih, slotAfter, slotAfter, length_fillPart]
    by_cases h : slot < bindings.length ∧ (slotAt bindings slot).isUnknown = true
    · rw [slotAt_fillPart_of_empty part h, if_pos h]
      by_cases hfills : part.slot = slot ∧ ¬ part.filling.isUnknown = true
      · simp [firstFilling, hfills.1, hfills.2]
      · have hskip : (part.slot == slot && !part.filling.isUnknown) = false := by
          simpa using hfills
        have hstill : (if part.slot = slot then part.filling else .unknown).isUnknown = true := by
          by_cases hslot : part.slot = slot
          · rw [if_pos hslot]
            exact not_not.mp fun hknown => hfills ⟨hslot, hknown⟩
          · rw [if_neg hslot]
            rfl
        rw [if_pos ⟨h.1, hstill⟩, firstFilling, firstFilling, List.find?_cons, hskip]
    · rw [slotAt_fillPart_of_full part h, if_neg h, if_neg h]

/-- What a slot holds once a pattern was lined up with a type. -/
theorem slotAt_typeBindGenericParams (pattern actual : Ty) (bindings : List Ty) (slot : ℕ) :
    slotAt (typeBindGenericParams pattern actual bindings) slot =
      slotAfter bindings (partsOf pattern actual) slot := by
  rw [typeBindGenericParams_eq, slotAt_fillParts]

/-- As many slots, and none that was full has changed. -/
structure Extends (bindings bindings' : List Ty) : Prop where
  length : bindings'.length = bindings.length
  slots : ∀ slot, (slotAt bindings slot).isUnknown = false →
    slotAt bindings' slot = slotAt bindings slot

theorem Extends.refl (bindings : List Ty) : Extends bindings bindings := ⟨rfl, fun _ _ => rfl⟩

theorem Extends.trans {bindings bindings' bindings'' : List Ty} (h : Extends bindings bindings')
    (h' : Extends bindings' bindings'') : Extends bindings bindings'' := by
  refine ⟨h'.length.trans h.length, fun slot hfull => ?_⟩
  rw [h'.slots slot (by rw [h.slots slot hfull]; exact hfull), h.slots slot hfull]

theorem extends_typeBindGenericParams (pattern actual : Ty) (bindings : List Ty) :
    Extends bindings (typeBindGenericParams pattern actual bindings) := by
  constructor
  · rw [typeBindGenericParams_eq]
    induction partsOf pattern actual generalizing bindings with
    | nil => rfl
    | cons part parts ih => rw [List.foldl_cons, ih, length_fillPart]
  · intro slot hfull
    rw [slotAt_typeBindGenericParams, slotAfter, if_neg (by simp [hfull])]

/-! ### Accepting -/

mutual

/-- Whether a type stands for itself alone: not for the number types of a kind, and not for arrays
of a length that is left open. -/
def isDefinite : Ty → Bool
  | .anyNumber | .anyInteger => false
  | .list elementType => isDefinite elementType
  | .struct _ typeArgs => allDefinite typeArgs
  | .array elementType length => decide (0 ≤ length) && isDefinite elementType
  | .fn paramTypes returnType => allDefinite paramTypes && isDefinite returnType
  | .unknown | .unit | .bool | .string | .number _ | .trait _ | .selfPlaceholder
  | .genericParam _ _ | .opaqueParam _ _ _ => true

def allDefinite : List Ty → Bool
  | [] => true
  | type :: types => isDefinite type && allDefinite types

end

/-- No part of the type is unknown or left open. -/
structure FullyKnown (type : Ty) : Prop where
  known : typeIsFullyKnown type = true
  definite : isDefinite type = true

theorem FullyKnown.not_isUnknown {type : Ty} (h : FullyKnown type) : type.isUnknown = false := by
  cases type with
  | unknown => cases h.known
  | _ => rfl

@[simp] theorem typeAccepts_unknown (expected : Ty) : typeAccepts expected .unknown = true := by
  cases expected <;> simp [typeAccepts, Ty.isUnknown]

mutual

theorem typeAccepts_self (type : Ty) (h : isDefinite type = true) :
    typeAccepts type type = true := by
  cases type with
  | anyNumber => cases h
  | anyInteger => cases h
  | list elementType => exact typeAccepts_self elementType h
  | struct name typeArgs => simpa [typeAccepts] using acceptsAll_self typeArgs h
  | array elementType length =>
    simp only [isDefinite, Bool.and_eq_true] at h
    simpa [typeAccepts] using typeAccepts_self elementType h.2
  | fn paramTypes returnType =>
    simp only [isDefinite, Bool.and_eq_true] at h
    simp [typeAccepts, acceptsAll_self paramTypes h.1, typeAccepts_self returnType h.2]
  | _ => simp [typeAccepts, typesEqual]

theorem acceptsAll_self (types : List Ty) (h : allDefinite types = true) :
    acceptsAll types types = true := by
  cases types with
  | nil => rfl
  | cons type types =>
    simp only [allDefinite, Bool.and_eq_true] at h
    simp [acceptsAll, typeAccepts_self type h.1, acceptsAll_self types h.2]

end

theorem length_eq_of_acceptsAll {expected actual : List Ty}
    (h : acceptsAll expected actual = true) : expected.length = actual.length := by
  induction expected generalizing actual with
  | nil =>
    cases actual with
    | nil => rfl
    | cons => simp [acceptsAll] at h
  | cons type types ih =>
    cases actual with
    | nil => simp [acceptsAll] at h
    | cons other others =>
      simp only [acceptsAll, Bool.and_eq_true] at h
      simp [ih h.2]

@[simp] theorem length_substituteAll (bindings : List Ty) (eraseEmpty : Bool) (types : List Ty) :
    (substituteAll bindings eraseEmpty types).length = types.length := by
  induction types with
  | nil => rfl
  | cons type types ih => simp [substituteAll, ih]

/-- The length in the place of a placeholder accepts another exactly if the slot does. -/
theorem boundLength_fits (bindings : List Ty) (length otherLength : ℤ) :
    (decide (boundLength bindings length < 0) || decide (boundLength bindings length = otherLength))
        = true ↔
      (decide (boundLength [] length < 0) || decide (boundLength [] length = otherLength)) = true ∧
        ∀ part ∈ (if length < 0 then [Part.length length otherLength] else []),
          part.fits (slotAt bindings part.slot) = true := by
  by_cases hlength : length < 0
  · have hnone : boundLength [] length = length := by
      simp [boundLength, slotAt]
    rw [hnone]
    simp only [hlength, decide_true, Bool.true_or, true_and, if_true, List.mem_singleton,
      forall_eq, Part.fits, Part.slot, boundLength]
    cases slotAt bindings (arrayLengthSlot length) <;> simp [hlength]
  · simp [boundLength, hlength]

mutual

/-- A type with its parameters replaced accepts another exactly if it does so with its parameters
left open, and each part is accepted by what replaced its parameter. -/
theorem typeAccepts_substitute_iff (bindings : List Ty) (pattern actual : Ty) :
    typeAccepts (typeSubstituteGenericParams pattern bindings) actual = true ↔
      typeAccepts (typeEraseGenericParams pattern) actual = true ∧
        ∀ part ∈ partsOf pattern actual, part.fits (slotAt bindings part.slot) = true := by
  cases pattern with
  | genericParam index name =>
    simp [typeSubstituteGenericParams, typeEraseGenericParams, substituteGenericParams, slotAt,
      partsOf, Part.fits, Part.slot, typeAccepts, Ty.isUnknown]
  | list elementType =>
    cases actual with
    | list other => exact typeAccepts_substitute_iff bindings elementType other
    | _ => simp [typeSubstituteGenericParams, typeEraseGenericParams, substituteGenericParams,
        partsOf, typeAccepts]
  | struct name typeArgs =>
    cases actual with
    | struct otherName otherArgs =>
      have h := acceptsAll_substitute_iff bindings typeArgs otherArgs
      simp only [typeSubstituteGenericParams, typeEraseGenericParams, substituteGenericParams,
        partsOf, typeAccepts, Bool.and_eq_true, decide_eq_true_eq, h]
      constructor
      · rintro ⟨hname, hargs, hparts⟩
        refine ⟨⟨hname, hargs⟩, fun part hpart => ?_⟩
        split at hpart
        · exact hparts part hpart
        · cases hpart
      · rintro ⟨⟨hname, hargs⟩, hparts⟩
        have hlength : typeArgs.length = otherArgs.length := by
          simpa using length_eq_of_acceptsAll hargs
        rw [if_pos ⟨hname, hlength⟩] at hparts
        exact ⟨hname, hargs, hparts⟩
    | _ => simp [typeSubstituteGenericParams, typeEraseGenericParams, substituteGenericParams,
        partsOf, typeAccepts]
  | array elementType length =>
    cases actual with
    | array other otherLength =>
      have h := typeAccepts_substitute_iff bindings elementType other
      have hbound := boundLength_fits bindings length otherLength
      simp only [typeSubstituteGenericParams, typeEraseGenericParams] at h ⊢
      simp only [substituteGenericParams, partsOf, typeAccepts, Bool.and_eq_true, h, hbound,
        List.mem_append, or_imp, forall_and]
      tauto
    | _ => simp [typeSubstituteGenericParams, typeEraseGenericParams, substituteGenericParams,
        partsOf, typeAccepts]
  | fn paramTypes returnType =>
    cases actual with
    | fn otherParams otherReturn =>
      have hparams := acceptsAll_substitute_iff bindings paramTypes otherParams
      have hreturn := typeAccepts_substitute_iff bindings returnType otherReturn
      simp only [typeSubstituteGenericParams, typeEraseGenericParams] at hreturn ⊢
      simp only [substituteGenericParams, partsOf, typeAccepts, Bool.and_eq_true, hparams, hreturn]
      constructor
      · rintro ⟨⟨hp, hparts⟩, hr, hrest⟩
        refine ⟨⟨hp, hr⟩, fun part hpart => ?_⟩
        split at hpart
        · exact (List.mem_append.mp hpart).elim (hparts part) (hrest part)
        · cases hpart
      · rintro ⟨⟨hp, hr⟩, hparts⟩
        have hlength : otherParams.length = paramTypes.length := by
          simpa using (length_eq_of_acceptsAll hp).symm
        rw [if_pos hlength] at hparts
        exact ⟨⟨hp, fun part hpart => hparts part (List.mem_append_left _ hpart)⟩, hr,
          fun part hpart => hparts part (List.mem_append_right _ hpart)⟩
    | _ => simp [typeSubstituteGenericParams, typeEraseGenericParams, substituteGenericParams,
        partsOf, typeAccepts]
  | _ => simp [typeSubstituteGenericParams, typeEraseGenericParams, substituteGenericParams,
      partsOf, typeAccepts]

theorem acceptsAll_substitute_iff (bindings patterns actuals : List Ty) :
    acceptsAll (substituteAll bindings false patterns) actuals = true ↔
      acceptsAll (substituteAll [] true patterns) actuals = true ∧
        ∀ part ∈ partsOfAll patterns actuals, part.fits (slotAt bindings part.slot) = true := by
  cases patterns with
  | nil => simp [substituteAll, partsOfAll]
  | cons pattern patterns =>
    cases actuals with
    | nil => simp [substituteAll, partsOfAll, acceptsAll]
    | cons actual actuals =>
      have h := typeAccepts_substitute_iff bindings pattern actual
      have hrest := acceptsAll_substitute_iff bindings patterns actuals
      simp only [typeSubstituteGenericParams, typeEraseGenericParams] at h
      simp only [substituteAll, partsOfAll, acceptsAll, Bool.and_eq_true, h, hrest,
        List.mem_append, or_imp, forall_and]
      tauto

end

/-! ### Filling some parameters first -/

mutual

/-- Filling in some of the parameters does not make the shape accept more. -/
theorem typeAccepts_erase_of_substitute (bindings : List Ty) (pattern actual : Ty)
    (h : typeAccepts (typeEraseGenericParams (typeSubstituteGenericParams pattern bindings)) actual =
      true) : typeAccepts (typeEraseGenericParams pattern) actual = true := by
  cases pattern with
  | genericParam index name => simp [typeEraseGenericParams, substituteGenericParams, slotAt,
      Ty.isUnknown, typeAccepts]
  | list elementType =>
    cases actual with
    | list other => exact typeAccepts_erase_of_substitute bindings elementType other h
    | _ => exact h
  | struct name typeArgs =>
    cases actual with
    | struct otherName otherArgs =>
      simp only [typeEraseGenericParams, typeSubstituteGenericParams, substituteGenericParams,
        typeAccepts, Bool.and_eq_true] at h ⊢
      exact ⟨h.1, acceptsAll_erase_of_substitute bindings typeArgs otherArgs h.2⟩
    | _ => exact h
  | array elementType length =>
    cases actual with
    | array other otherLength =>
      simp only [typeEraseGenericParams, typeSubstituteGenericParams, substituteGenericParams,
        typeAccepts, Bool.and_eq_true] at h ⊢
      refine ⟨?_, typeAccepts_erase_of_substitute bindings elementType other h.2⟩
      by_cases hlength : length < 0
      · simp [boundLength, hlength, slotAt]
      · simpa [boundLength, hlength] using h.1
    | _ => exact h
  | fn paramTypes returnType =>
    cases actual with
    | fn otherParams otherReturn =>
      simp only [typeEraseGenericParams, typeSubstituteGenericParams, substituteGenericParams,
        typeAccepts, Bool.and_eq_true] at h ⊢
      exact ⟨acceptsAll_erase_of_substitute bindings paramTypes otherParams h.1,
        typeAccepts_erase_of_substitute bindings returnType otherReturn h.2⟩
    | _ => exact h
  | _ => exact h

theorem acceptsAll_erase_of_substitute (bindings patterns actuals : List Ty)
    (h : acceptsAll (substituteAll [] true (substituteAll bindings false patterns)) actuals = true) :
    acceptsAll (substituteAll [] true patterns) actuals = true := by
  cases patterns with
  | nil => exact h
  | cons pattern patterns =>
    cases actuals with
    | nil => cases h
    | cons actual actuals =>
      simp only [substituteAll, acceptsAll, Bool.and_eq_true] at h ⊢
      exact ⟨typeAccepts_erase_of_substitute bindings pattern actual h.1,
        acceptsAll_erase_of_substitute bindings patterns actuals h.2⟩

end

theorem boundLength_of_extends {bindings bindings' : List Ty} (h : Extends bindings bindings')
    {length : ℤ} (hbound : 0 ≤ boundLength bindings length) :
    boundLength bindings' length = boundLength bindings length := by
  unfold boundLength at hbound ⊢
  by_cases hlength : length < 0
  · rw [if_pos hlength] at hbound ⊢
    rw [if_pos hlength]
    by_cases hslot : (slotAt bindings (arrayLengthSlot length)).isUnknown = true
    · rw [Ty.eq_unknown hslot] at hbound
      exact absurd hlength (not_lt.mpr hbound)
    · rw [h.slots _ (by simpa using hslot)]
  · rw [if_neg hlength, if_neg hlength]

mutual

/-- A type whose parameters are all filled in does not change when more slots are filled. -/
theorem substitute_of_extends {bindings bindings' : List Ty} (h : Extends bindings bindings')
    (type : Ty) (hcount : typeGenericParamCount (typeSubstituteGenericParams type bindings) = 0) :
    typeSubstituteGenericParams type bindings' = typeSubstituteGenericParams type bindings := by
  unfold typeSubstituteGenericParams at hcount ⊢
  cases type with
  | genericParam index name =>
    by_cases hslot : (slotAt bindings index).isUnknown = true
    · rw [substituteGenericParams, if_pos hslot] at hcount
      cases hcount
    · have hfull : (slotAt bindings index).isUnknown = false := by simpa using hslot
      simp only [substituteGenericParams, h.slots index hfull]
  | list elementType =>
    simp only [substituteGenericParams, typeGenericParamCount] at hcount ⊢
    rw [← typeSubstituteGenericParams, substitute_of_extends h elementType hcount]
    rfl
  | struct name typeArgs =>
    simp only [substituteGenericParams, typeGenericParamCount] at hcount ⊢
    rw [substituteAll_of_extends h typeArgs hcount]
  | array elementType length =>
    simp only [substituteGenericParams, typeGenericParamCount] at hcount ⊢
    have hlength : boundLength bindings' length = boundLength bindings length := by
      apply boundLength_of_extends h
      by_contra hopen
      rw [if_pos (not_le.mp hopen)] at hcount
      omega
    have helement : typeGenericParamCount (substituteGenericParams bindings false elementType) =
        0 := by
      split at hcount <;> omega
    rw [hlength, ← typeSubstituteGenericParams, substitute_of_extends h elementType helement]
    rfl
  | fn paramTypes returnType =>
    simp only [substituteGenericParams, typeGenericParamCount] at hcount ⊢
    have hreturn : typeGenericParamCount (substituteGenericParams bindings false returnType) = 0 := by
      omega
    rw [substituteAll_of_extends h paramTypes (by omega), ← typeSubstituteGenericParams,
      substitute_of_extends h returnType hreturn]
    rfl
  | _ => rfl

theorem substituteAll_of_extends {bindings bindings' : List Ty} (h : Extends bindings bindings')
    (types : List Ty) (hcount : genericParamCounts (substituteAll bindings false types) = 0) :
    substituteAll bindings' false types = substituteAll bindings false types := by
  cases types with
  | nil => rfl
  | cons type types =>
    simp only [substituteAll, genericParamCounts] at hcount ⊢
    have hhead : typeGenericParamCount (typeSubstituteGenericParams type bindings) = 0 := by
      unfold typeSubstituteGenericParams
      omega
    rw [substituteAll_of_extends h types (by omega), ← typeSubstituteGenericParams,
      substitute_of_extends h type hhead]
    rfl

end

mutual

/-- A fully known type fills every slot that it meets. -/
theorem filling_of_fullyKnown (pattern actual : Ty) (h : FullyKnown actual) :
    ∀ part ∈ partsOf pattern actual, part.filling.isUnknown = false := by
  intro part hpart
  have hknown := h.known
  have hdefinite := h.definite
  cases pattern with
  | genericParam index name =>
    rw [partsOf, List.mem_singleton] at hpart
    subst hpart
    exact h.not_isUnknown
  | list elementType =>
    cases actual with
    | list other => exact filling_of_fullyKnown elementType other ⟨hknown, hdefinite⟩ part hpart
    | _ => cases hpart
  | struct name typeArgs =>
    cases actual with
    | struct otherName otherArgs =>
      rw [partsOf] at hpart
      split at hpart
      · exact fillings_of_fullyKnown typeArgs otherArgs hknown hdefinite part hpart
      · cases hpart
    | _ => cases hpart
  | array elementType length =>
    cases actual with
    | array other otherLength =>
      simp only [isDefinite, Bool.and_eq_true, decide_eq_true_eq] at hdefinite
      rcases List.mem_append.mp hpart with hpart | hpart
      · exact filling_of_fullyKnown elementType other ⟨hknown, hdefinite.2⟩ part hpart
      · split at hpart
        · rw [List.mem_singleton] at hpart
          subst hpart
          simp [Part.filling, hdefinite.1, Ty.isUnknown]
        · cases hpart
    | _ => cases hpart
  | fn paramTypes returnType =>
    cases actual with
    | fn otherParams otherReturn =>
      simp only [isDefinite, typeIsFullyKnown, Bool.and_eq_true] at hknown hdefinite
      rw [partsOf] at hpart
      split at hpart
      · rcases List.mem_append.mp hpart with hpart | hpart
        · exact fillings_of_fullyKnown paramTypes otherParams hknown.1 hdefinite.1 part hpart
        · exact filling_of_fullyKnown returnType otherReturn ⟨hknown.2, hdefinite.2⟩ part hpart
      · cases hpart
    | _ => cases hpart
  | _ => cases hpart

theorem fillings_of_fullyKnown (patterns actuals : List Ty) (hknown : allFullyKnown actuals = true)
    (hdefinite : allDefinite actuals = true) :
    ∀ part ∈ partsOfAll patterns actuals, part.filling.isUnknown = false := by
  intro part hpart
  cases patterns with
  | nil => cases hpart
  | cons pattern patterns =>
    cases actuals with
    | nil => cases hpart
    | cons actual actuals =>
      simp only [allFullyKnown, allDefinite, Bool.and_eq_true] at hknown hdefinite
      rcases List.mem_append.mp hpart with hpart | hpart
      · exact filling_of_fullyKnown pattern actual ⟨hknown.1, hdefinite.1⟩ part hpart
      · exact fillings_of_fullyKnown patterns actuals hknown.2 hdefinite.2 part hpart

end

mutual

/-- A parameter whose slot is empty is left in place. -/
theorem mem_partsOf_substitute (bindings : List Ty) (pattern actual : Ty) {part : Part}
    (hpart : part ∈ partsOf pattern actual) (hempty : (slotAt bindings part.slot).isUnknown = true) :
    part ∈ partsOf (typeSubstituteGenericParams pattern bindings) actual := by
  cases pattern with
  | genericParam index name =>
    rw [partsOf, List.mem_singleton] at hpart
    subst hpart
    have hslot : (slotAt bindings index).isUnknown = true := hempty
    rw [typeSubstituteGenericParams, substituteGenericParams, if_pos hslot]
    exact List.mem_singleton.mpr rfl
  | list elementType =>
    cases actual with
    | list other => exact mem_partsOf_substitute bindings elementType other hpart hempty
    | _ => cases hpart
  | struct name typeArgs =>
    cases actual with
    | struct otherName otherArgs =>
      rw [partsOf] at hpart
      split at hpart
      · rename_i hsame
        rw [typeSubstituteGenericParams, substituteGenericParams, partsOf, length_substituteAll,
          if_pos hsame]
        exact mem_partsOfAll_substitute bindings typeArgs otherArgs hpart hempty
      · cases hpart
    | _ => cases hpart
  | array elementType length =>
    cases actual with
    | array other otherLength =>
      rw [typeSubstituteGenericParams, substituteGenericParams, partsOf, List.mem_append]
      rcases List.mem_append.mp hpart with hpart | hpart
      · exact .inl (mem_partsOf_substitute bindings elementType other hpart hempty)
      · split at hpart
        · rename_i hlength
          rw [List.mem_singleton] at hpart
          subst hpart
          have hslot : slotAt bindings (arrayLengthSlot length) = .unknown := Ty.eq_unknown hempty
          have hkept : boundLength bindings length = length := by
            rw [boundLength, if_pos hlength, hslot]
          rw [hkept, if_pos hlength]
          exact .inr (List.mem_singleton.mpr rfl)
        · cases hpart
    | _ => cases hpart
  | fn paramTypes returnType =>
    cases actual with
    | fn otherParams otherReturn =>
      rw [partsOf] at hpart
      split at hpart
      · rename_i hsame
        rw [typeSubstituteGenericParams, substituteGenericParams, partsOf, length_substituteAll,
          if_pos hsame, List.mem_append]
        rcases List.mem_append.mp hpart with hpart | hpart
        · exact .inl (mem_partsOfAll_substitute bindings paramTypes otherParams hpart hempty)
        · exact .inr (mem_partsOf_substitute bindings returnType otherReturn hpart hempty)
      · cases hpart
    | _ => cases hpart
  | _ => cases hpart

theorem mem_partsOfAll_substitute (bindings patterns actuals : List Ty) {part : Part}
    (hpart : part ∈ partsOfAll patterns actuals)
    (hempty : (slotAt bindings part.slot).isUnknown = true) :
    part ∈ partsOfAll (substituteAll bindings false patterns) actuals := by
  cases patterns with
  | nil => cases hpart
  | cons pattern patterns =>
    cases actuals with
    | nil => cases hpart
    | cons actual actuals =>
      rw [substituteAll, partsOfAll, List.mem_append]
      rcases List.mem_append.mp hpart with hpart | hpart
      · exact .inl (mem_partsOf_substitute bindings pattern actual hpart hempty)
      · exact .inr (mem_partsOfAll_substitute bindings patterns actuals hpart hempty)

end

/-! ### What the parameters hold in the end -/

theorem firstFilling_known {parts : List Part} {part : Part} (hpart : part ∈ parts)
    (hfilling : part.filling.isUnknown = false) :
    (firstFilling parts part.slot).isUnknown = false := by
  unfold firstFilling
  cases hfind : parts.find? fun other => other.slot == part.slot && !other.filling.isUnknown with
  | none => simpa [hfilling] using List.find?_eq_none.mp hfind part hpart
  | some found =>
    have hfound := List.find?_some hfind
    simp only [Bool.and_eq_true, Bool.not_eq_true'] at hfound
    exact hfound.2

/-- A slot that a fully known type meets holds at the end what it held before, else the first part
that filled it. -/
theorem slotAt_of_extends {bindings final : List Ty} {pattern actual : Ty}
    (hknown : FullyKnown actual)
    (h : Extends
      (typeBindGenericParams (typeSubstituteGenericParams pattern bindings) actual bindings) final)
    {part : Part} (hpart : part ∈ partsOf pattern actual) :
    slotAt final part.slot =
      slotAfter bindings (partsOf (typeSubstituteGenericParams pattern bindings) actual)
        part.slot := by
  rw [← slotAt_typeBindGenericParams]
  by_cases hfull : (slotAt (typeBindGenericParams (typeSubstituteGenericParams pattern bindings)
      actual bindings) part.slot).isUnknown = true
  · have hlength := h.length.trans (extends_typeBindGenericParams
      (typeSubstituteGenericParams pattern bindings) actual bindings).length
    by_cases hslot : part.slot < bindings.length
    · exfalso
      rw [slotAt_typeBindGenericParams, slotAfter] at hfull
      by_cases hempty : (slotAt bindings part.slot).isUnknown = true
      · rw [if_pos ⟨hslot, hempty⟩, firstFilling_known
          (mem_partsOf_substitute bindings pattern actual hpart hempty)
          (filling_of_fullyKnown pattern actual hknown part hpart)] at hfull
        cases hfull
      · rw [if_neg fun hfree => hempty hfree.2] at hfull
        exact hempty hfull
    · have hnone : final.length ≤ part.slot := by omega
      rw [Ty.eq_unknown hfull, slotAt, List.getD_eq_getElem?_getD, List.getElem?_eq_none hnone]
      rfl
  · exact h.slots _ (by simpa using hfull)

/-- Each part is accepted by what its slot holds after the value: what it held before, else the
first part of the value that filled it. -/
def Agrees (bindings : List Ty) (pattern actual : Ty) : Prop :=
  ∀ part ∈ partsOf pattern actual,
    part.fits (slotAfter bindings (partsOf (typeSubstituteGenericParams pattern bindings) actual)
      part.slot) = true

/-- A fully known type that fitted the shape of a parameter is accepted by the parameter, with all
slots filled in, exactly if its parts agree. -/
theorem typeAccepts_final_iff {bindings final : List Ty} {pattern actual : Ty}
    (hknown : FullyKnown actual)
    (hshape : typeAccepts
      (typeEraseGenericParams (typeSubstituteGenericParams pattern bindings)) actual = true)
    (h : Extends
      (typeBindGenericParams (typeSubstituteGenericParams pattern bindings) actual bindings) final) :
    typeAccepts (typeSubstituteGenericParams pattern final) actual = true ↔
      Agrees bindings pattern actual := by
  rw [typeAccepts_substitute_iff,
    and_iff_right (typeAccepts_erase_of_substitute bindings pattern actual hshape)]
  apply forall₂_congr
  intro part hpart
  rw [slotAt_of_extends hknown h hpart]

end KirbyLang
