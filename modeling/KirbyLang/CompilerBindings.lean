import KirbyLang.CompilerLaw

/-!
# Constants, variables and scopes

The parts of the compiler that name things: an operand that names a constant, an upvalue or a global
names one that is there.

* `triple_makeConstant`, `triple_stringConstant`: constants;
* `triple_resolveUpvalue`, `triple_resolveVariable`: variables;
* `triple_defineVariable`, `triple_beginScope`, `triple_endScope`: declarations and scopes.
-/

namespace KirbyLang

open Boundaries StickyErrors

variable {s s' s₀ : Compiler} {closing : ℕ} {pending : Pending} {nesting : Nesting}

/-! ### Constants -/

theorem fits_of_equal {c c' : CompiledConst} {use : ConstantUse}
    (h : compiledConstantsAreEqual c c' = true ∨ c = c') (hfits : use.Fits c') : use.Fits c := by
  rcases h with hequal | rfl
  · cases use with
    | value =>
      rintro i rfl
      cases c' <;> cases hequal
    | string =>
      obtain ⟨offset, length, rfl⟩ := hfits
      cases c <;> first | exact ⟨_, _, rfl⟩ | cases hequal
    | function =>
      obtain ⟨i, rfl⟩ := hfits
      cases c <;> cases hequal
  · exact hfits

/-- A constant that is added or found is there, and is what was to be added or equals it. -/
theorem cuAddConstant_at (fn : CompiledFn) (value : CompiledConst) :
    ∃ c, (cuAddConstant fn value).2.constants[(cuAddConstant fn value).1]? = some c ∧
      (compiledConstantsAreEqual c value = true ∨ c = value) := by
  unfold cuAddConstant
  cases hfind : fn.constants.findIdx? (compiledConstantsAreEqual · value) with
  | some i =>
    obtain ⟨hi, hequal, -⟩ := List.findIdx?_eq_some_iff_getElem.mp hfind
    exact ⟨fn.constants[i], List.getElem?_eq_getElem hi, .inl hequal⟩
  | none => exact ⟨value, by simp, .inr rfl⟩

/-- Only the constants of a function are changed, by adding the value at most. -/
theorem cuAddConstant_adds (fn : CompiledFn) (value : CompiledConst) :
    ∃ added, (cuAddConstant fn value).2 = { fn with constants := fn.constants ++ added } ∧
      ∀ c ∈ added, c = value := by
  unfold cuAddConstant
  cases fn.constants.findIdx? (compiledConstantsAreEqual · value) with
  | some i => exact ⟨[], by simp, by simp⟩
  | none => exact ⟨[value], rfl, by simp⟩

/-- A constant that names what is there is added. -/
theorem Compiler.Good.addConstant {value : CompiledConst} (h : s₀.Good closing pending nesting s)
    (hvalue : s.setting.Holds value) :
    s₀.Good closing pending nesting { s with
      current := { s.current with fn := (cuAddConstant s.current.fn value).2 } } := by
  obtain ⟨added, hfn, hadded⟩ := cuAddConstant_adds s.current.fn value
  rw [hfn]
  have hconstants : s.current.fn.constants <+: s.current.fn.constants ++ added :=
    List.prefix_append _ _
  have hedits : s.Edits { s with
      current := { s.current with
        fn := { s.current.fn with constants := s.current.fn.constants ++ added } } } :=
    .ofCode s hconstants id
  have hcode := h.ok.code
  refine hedits.good h (hcode.carries_mono hedits.before hconstants rfl) ?_ h.grows.code rfl rfl
    h.fresh
  refine hcode.mono hedits.before hconstants rfl (fun c hc => ?_) hcode.name
  rcases List.mem_append.mp hc with hold | hnew
  · exact hedits.before.holds (hcode.pool c hold)
  · exact hedits.before.holds (hadded c hnew ▸ hvalue)

/-- The constant with an index is a value or equals it. -/
def Compiler.Names (value : CompiledConst) (index : UInt8) (s : Compiler) : Prop :=
  ∃ c, s.current.fn.constants[index.toNat]? = some c ∧
    (compiledConstantsAreEqual c value = true ∨ c = value)

theorem Compiler.Names.hasConstant {value : CompiledConst} {index : UInt8}
    (h : s.Names value index) {use : ConstantUse} (hfits : use.Fits value) :
    s.HasConstant use index := by
  obtain ⟨c, hc, hequal⟩ := h
  exact ⟨c, hc, fits_of_equal hequal hfits⟩

theorem triple_makeConstant (value : CompiledConst) (tok : Option Token) (s₀ : Compiler)
    (pending : Pending) (nesting : Nesting) :
    Triple Compiler.Erred (fun s => s₀.Good closing pending nesting s ∧ s.setting.Holds value)
      (makeConstant value tok) fun index s =>
        s₀.Good closing pending nesting s ∧ s.Names value index := by
  have hfail : Triple Compiler.Erred (fun _ => False) (pure 0 : CompileM UInt8)
      fun index s => s₀.Good closing pending nesting s ∧ s.Names value index :=
    triple_pure fun _ h => h.elim
  refine triple_get fun s => ?_
  have hadd : Triple Compiler.Erred
      (fun s' => s' = s ∧ s₀.Good closing pending nesting s ∧ s.setting.Holds value)
      (modifyCurrentFn fun _ => (cuAddConstant s.current.fn value).2) fun _ s' =>
        s₀.Good closing pending nesting s' ∧
          s'.current.fn = (cuAddConstant s.current.fn value).2 := by
    refine triple_modify (fun _ h => h) ?_
    rintro _ ⟨rfl, h, hvalue⟩
    exact ⟨h.addConstant hvalue, rfl⟩
  refine hadd.bind fun _ => ?_
  refine .ite (fun _ => ?_) fun hmax => triple_pure ?_
  · cases tok with
    | none => exact (triple_compilerError _).bind fun _ => hfail
    | some tok => exact (triple_compilerErrorAtToken _ _).bind fun _ => hfail
  · rintro s' ⟨h, hfn⟩
    obtain ⟨c, hc, hequal⟩ := cuAddConstant_at s.current.fn value
    have hlt : (cuAddConstant s.current.fn value).1 < 2 ^ 8 :=
      Nat.lt_of_le_of_lt (Nat.le_of_not_lt hmax) (by decide)
    refine ⟨h, c, ?_, hequal⟩
    show s'.current.fn.constants[(UInt8.ofNat (cuAddConstant s.current.fn value).1).toNat]? = _
    rw [hfn, UInt8.toNat_ofNat', Nat.mod_eq_of_lt hlt]
    exact hc

/-- Interning a text keeps the texts inside the arena, and the text is one of them. -/
theorem stringSetIntern_inside {set : StringSet} (h : set.Inside) (chars : Bytes) :
    set.arena <+: (stringSetIntern set chars).2.arena ∧ (stringSetIntern set chars).2.Inside ∧
      (stringSetIntern set chars).1 + chars.length ≤
        (stringSetIntern set chars).2.arena.length := by
  unfold stringSetIntern
  cases hfind : set.find? chars with
  | some entry =>
    have hlength : entry.2 = chars.length := by
      have := List.find?_some hfind
      simp only [Bool.and_eq_true, beq_iff_eq] at this
      exact this.1
    exact ⟨List.prefix_refl _, h, hlength ▸ h entry (List.mem_of_find?_eq_some hfind)⟩
  | none =>
    refine ⟨List.prefix_append _ _, fun entry hentry => ?_, ?_⟩
    · show entry.1 + entry.2 ≤ (set.arena ++ chars).length
      rw [List.length_append]
      rcases List.mem_append.mp hentry with hold | hnew
      · exact Nat.le_trans (h entry hold) (Nat.le_add_right _ _)
      · obtain rfl := List.mem_singleton.mp hnew
        exact Nat.le_refl _
    · show set.arena.length + chars.length ≤ (set.arena ++ chars).length
      rw [List.length_append]

theorem Compiler.Good.interned (h : s₀.Good closing pending nesting s) (chars : Bytes) :
    s₀.Good closing pending nesting
        { s with compilingUnit := (cuInternString s.compilingUnit chars).2 } ∧
      Slice (cuInternString s.compilingUnit chars).1 chars.length
        (cuInternString s.compilingUnit chars).2.strings.arena.length := by
  obtain ⟨harena, hinside, hle⟩ := stringSetIntern_inside h.ok.strings chars
  have hedits : s.Edits { s with compilingUnit := (cuInternString s.compilingUnit chars).2 } :=
    .inside rfl harena (fun _ => hinside) rfl rfl rfl rfl rfl (List.prefix_refl _) id
  refine ⟨hedits.same h rfl rfl rfl, Int.natCast_nonneg _, Int.natCast_nonneg _, ?_⟩
  exact_mod_cast hle

/-- A text is interned, and the program goes on with its offset. -/
theorem triple_interned {β : Type} {chars : Bytes} {rest : ℕ → CompileM β}
    {final : β → Compiler → Prop}
    (h : ∀ offset : ℕ, Triple Compiler.Erred (fun s => s₀.Good closing pending nesting s ∧
      Slice offset chars.length s.compilingUnit.strings.arena.length) (rest offset) final) :
    Triple Compiler.Erred (s₀.Good closing pending nesting) (do
      let (offset, compilingUnit) := cuInternString (← get).compilingUnit chars
      modify fun s => { s with compilingUnit }
      rest offset) final := by
  refine triple_get fun s => ?_
  refine Triple.bind (triple_modify (fun _ h => h) ?_) fun _ => h _
  rintro _ ⟨rfl, hgood⟩
  exact hgood.interned chars

theorem triple_stringConstant (chars : Bytes) (tok : Option Token) (s₀ : Compiler)
    (pending : Pending) (nesting : Nesting) :
    Triple Compiler.Erred (s₀.Good closing pending nesting) (stringConstant chars tok)
      fun index s => s₀.Good closing pending nesting s ∧ s.HasConstant .string index :=
  triple_interned fun offset =>
    (triple_makeConstant (.string offset chars.length) tok s₀ pending nesting).weaken (fun _ h => h)
      fun _ _ h => ⟨h.1, h.2.hasConstant ⟨_, _, rfl⟩⟩

theorem triple_identifierConstant (identifier : Token) (s₀ : Compiler) (pending : Pending)
    (nesting : Nesting) :
    Triple Compiler.Erred (s₀.Good closing pending nesting) (identifierConstant identifier)
      fun index s => s₀.Good closing pending nesting s ∧ s.HasConstant .string index :=
  triple_stringConstant _ _ s₀ pending nesting

theorem Compiler.HasConstant.value {index : UInt8} (h : s.HasConstant .string index) :
    s.HasConstant .value index := by
  obtain ⟨c, hc, offset, length, rfl⟩ := h
  exact ⟨_, hc, nofun⟩

/-- A constant is added, and then pushed. -/
theorem Triple.thenConstant {p : CompileM UInt8} (hp : Triple Compiler.Erred
      (s₀.Good closing pending nesting) p fun index s =>
        s₀.Good closing pending nesting s ∧ s.HasConstant .value index) :
    Triple Compiler.Erred (s₀.Good closing pending nesting)
      (p >>= fun index => emitBytes OpCode.constant.toByte index) fun _ =>
        s₀.Good closing pending nesting :=
  hp.bind fun _ => triple_emitConstant rfl (by decide) rfl s₀ pending nesting

theorem keepsShape_emitNumberConstant (kind : NumberKind) (payload : NumberPayload) :
    KeepsShape closing (emitNumberConstant kind payload) := fun s₀ pending nesting =>
  Triple.thenConstant ((triple_makeConstant (.number kind payload) none s₀ pending nesting).weaken
    (fun _ h => ⟨h, trivial⟩) fun _ _ h => ⟨h.1, h.2.hasConstant nofun⟩)

theorem keepsShape_emitStringConstant (chars : Bytes) :
    KeepsShape closing (emitStringConstant chars) :=
  fun s₀ pending nesting =>
    Triple.thenConstant ((triple_stringConstant chars none s₀ pending nesting).weaken (fun _ h => h)
      fun _ _ h => ⟨h.1, h.2.value⟩)

/-! ### Variables -/

theorem triple_resolveLocal {pre : Compiler → Prop} (compiler : FnCompiler) (identifier : Token) :
    Triple Compiler.Erred pre (resolveLocal compiler identifier) fun _ => pre := by
  unfold resolveLocal
  split
  · exact triple_pure fun _ h => h
  · refine .ite (fun _ => ?_) fun _ => triple_pure fun _ h => h
    exact (triple_compilerErrorAtToken _ _).bind fun _ => triple_pure fun _ h => h

/-- A variable is captured by a function, or has been. -/
structure Captured (compiler compiler' : FnCompiler) (position : ℕ) (index : UInt8)
    (isLocal : Bool) : Prop where
  captures : compiler.Captures compiler'
  there : position < compiler'.upvalues.length
  bounded : compiler.upvalues.length ≤ 256 → compiler'.upvalues.length ≤ 256
  new : ∀ u ∈ compiler'.upvalues, u ∈ compiler.upvalues ∨ u.index = index ∧ u.isLocal = isLocal

theorem captured_new {compiler : FnCompiler} {u : Upvalue}
    (hfull : compiler.upvalues.length ≠ UINT8_COUNT) :
    Captured compiler { compiler with upvalues := compiler.upvalues ++ [u] }
      compiler.upvalues.length u.index u.isLocal := by
  refine ⟨⟨List.prefix_append _ _, rfl⟩, ?_, fun hle => ?_, fun u' hu => ?_⟩
  · show compiler.upvalues.length < (compiler.upvalues ++ [u]).length
    rw [List.length_append]
    exact Nat.lt_succ_self _
  · show (compiler.upvalues ++ [u]).length ≤ 256
    rw [List.length_append]
    exact Nat.lt_of_le_of_ne hle hfull
  · refine (List.mem_append.mp hu).imp id fun hnew => ?_
    obtain rfl := List.mem_singleton.mp hnew
    exact ⟨rfl, rfl⟩

theorem triple_addUpvalue {pre : Compiler → Prop} (compiler : FnCompiler) (index : UInt8)
    (isLocal isMutable : Bool) :
    Triple Compiler.Erred pre (addUpvalue compiler index isLocal isMutable) fun r s =>
      pre s ∧ Captured compiler r.2 r.1 index isLocal := by
  unfold addUpvalue
  split
  · next i hfind =>
    refine triple_pure fun s h => ⟨h, .refl _, ?_, id, fun u hu => .inl hu⟩
    exact (List.findIdx?_eq_some_iff_getElem.mp hfind).1
  · refine .ite (fun _ => ?_) fun hfull => ?_
    · exact (triple_compilerError _).bind fun _ =>
        @triple_pure _ _ _ (fun _ => False) _ _ fun _ h => h.elim
    · exact triple_pure fun s h => ⟨h, @captured_new compiler ⟨index, isLocal, isMutable⟩ hfull⟩

theorem upvaluesOk_bounded {c : FnCompiler} {rest : List FnCompiler} (h : UpvaluesOk (c :: rest)) :
    c.upvalues.length ≤ 256 := by
  cases rest with
  | nil =>
    rw [show c.upvalues = [] from h]
    exact Nat.zero_le _
  | cons d rest => exact h.1.1

/-- The variable that the inner function captures is there in the outer one. -/
theorem UpvaluesOk.captured {c c' d d' : FnCompiler} {rest rest' : List FnCompiler} {position : ℕ}
    {index : UInt8} {isLocal : Bool} (h : UpvaluesOk (c :: d :: rest))
    (hc : Captured c c' position index isLocal) (hd : d.Captures d')
    (hrest : UpvaluesOk (d' :: rest'))
    (hindex : isLocal = false → index.toNat < d'.upvalues.length) :
    UpvaluesOk (c' :: d' :: rest') := by
  refine ⟨⟨hc.bounded h.1.1, fun u hu hlocal => ?_⟩, hrest⟩
  rcases hc.new u hu with hold | ⟨rfl, rfl⟩
  · exact Nat.lt_of_lt_of_le (h.1.2 u hold hlocal) hd.1.length_le
  · exact hindex hlocal

/-- What resolving a name in the functions around does to them. -/
structure UpvalueResolved (compiler : FnCompiler) (enclosing : List FnCompiler)
    (r : Option ℕ × FnCompiler × List FnCompiler) : Prop where
  captures : compiler.Captures r.2.1
  outer : List.Forall₂ FnCompiler.Captures enclosing r.2.2
  chain : UpvaluesOk (r.2.1 :: r.2.2)
  there : ∀ i, r.1 = some i → i < r.2.1.upvalues.length

theorem triple_resolveUpvalue {pre : Compiler → Prop} (name : Token) (compiler : FnCompiler)
    (enclosing : List FnCompiler) :
    Triple Compiler.Erred pre (resolveUpvalue name compiler enclosing) fun r s =>
      pre s ∧ (UpvaluesOk (compiler :: enclosing) → UpvalueResolved compiler enclosing r) := by
  induction enclosing generalizing compiler with
  | nil => exact triple_pure fun s h => ⟨h, fun hok => ⟨.refl _, .nil, hok, nofun⟩⟩
  | cons outer rest ih =>
    refine (triple_resolveLocal outer name).bind fun found => ?_
    cases found with
    | some i =>
      have hcapture : outer.Captures (outer.captureLocal i) := ⟨List.prefix_refl _, rfl⟩
      dsimp only
      split
      · next l hl =>
        refine (triple_addUpvalue compiler l.slotByte true l.isMutable).bind fun r =>
          triple_pure fun s h => ⟨h.1, fun hok =>
            ⟨h.2.captures, .cons hcapture (captures_refl rest), ?_, ?_⟩⟩
        · exact hok.captured h.2 hcapture (@upvaluesOk_congr outer _ rest rfl hok.2) nofun
        · rintro j ⟨⟩
          exact h.2.there
      · exact triple_pure fun s h => ⟨h, fun hok => ⟨.refl _, captures_refl _, hok, nofun⟩⟩
    | none =>
      refine (ih outer).bind fun r => ?_
      obtain ⟨upvalue, outer', rest'⟩ := r
      cases upvalue with
      | some i =>
        dsimp only
        refine (triple_addUpvalue compiler (UInt8.ofNat i) false _).bind fun r =>
          triple_pure fun s ⟨⟨h, hresolved⟩, hcaptured⟩ => ⟨h, fun hok => ?_⟩
        have houter := hresolved hok.2
        refine ⟨hcaptured.captures, .cons houter.captures houter.outer, ?_, ?_⟩
        · refine hok.captured hcaptured houter.captures houter.chain fun _ => ?_
          have hi : i < outer'.upvalues.length := houter.there i rfl
          have hle : outer'.upvalues.length ≤ 256 := upvaluesOk_bounded houter.chain
          rw [UInt8.toNat_ofNat', Nat.mod_eq_of_lt (by omega)]
          exact hi
        · rintro j ⟨⟩
          exact hcaptured.there
      | none =>
        refine triple_pure fun s ⟨h, hresolved⟩ => ⟨h, fun hok => ?_⟩
        have houter := hresolved hok.2
        refine ⟨.refl _, .cons houter.captures houter.outer,
          ⟨⟨hok.1.1, fun u hu hlocal => ?_⟩, houter.chain⟩, nofun⟩
        exact Nat.lt_of_lt_of_le (hok.1.2 u hu hlocal) houter.captures.1.length_le

/-- What a variable is resolved to is there. -/
def Compiler.Resolves (ref : VarRef) (s : Compiler) : Prop :=
  (ref.getOp = .getLocal ∧ ref.setOp = .setLocal) ∨
    (ref.getOp = .getUpvalue ∧ ref.setOp = .setUpvalue) ∧
      ref.arg.toNat < s.current.upvalues.length ∨
    (ref.getOp = .getGlobal ∧ ref.setOp = .setGlobal) ∧ s.HasConstant .string ref.arg

theorem stable_resolves (ref : VarRef) : Stable (Compiler.Resolves ref) := by
  intro s s' hstays h
  rcases h with hlocal | ⟨hops, hindex⟩ | ⟨hops, hconstant⟩
  · exact .inl hlocal
  · exact .inr (.inl ⟨hops, Nat.lt_of_lt_of_le hindex hstays.before.upvalueCount⟩)
  · exact .inr (.inr ⟨hops, stable_hasConstant _ _ s s' hstays hconstant⟩)

theorem Compiler.Good.resolved {r : Option ℕ × FnCompiler × List FnCompiler}
    (h : s₀.Good closing pending nesting s) (hr : UpvalueResolved s.current s.enclosing r) :
    s₀.Good closing pending nesting { s with current := r.2.1, enclosing := r.2.2 } := by
  have hsame := hr.captures.2
  have hedits : s.Edits { s with current := r.2.1, enclosing := r.2.2 } := by
    refine ⟨rfl, List.prefix_refl _, id, hr.outer, rfl, hr.captures.1, fun _ => hr.chain,
      hr.captures.fnIndex, ?_, ?_, fun harity => ?_⟩ <;> dsimp only <;> rw [hsame]
    exact harity
  refine hedits.same h ?_ ?_ ?_ <;> dsimp only <;> rw [hsame]

theorem triple_isMutuableBinding {pre : Compiler → Prop} (name : Token) :
    Triple Compiler.Erred pre (isMutuableBinding name) fun _ => pre :=
  triple_read fun _ => triple_pure fun _ h => h

theorem triple_resolveVariable (name : Token) (s₀ : Compiler) (pending : Pending)
    (nesting : Nesting) :
    Triple Compiler.Erred (s₀.Good closing pending nesting) (resolveVariable name) fun ref s =>
      s₀.Good closing pending nesting s ∧ s.Resolves ref := by
  refine triple_read fun s => (triple_resolveLocal _ _).bind fun found => ?_
  cases found with
  | some i =>
    refine triple_read fun s' => ?_
    split <;> exact triple_pure fun _ h => ⟨h, .inl ⟨rfl, rfl⟩⟩
  | none =>
    refine triple_get fun s => (triple_resolveUpvalue name s.current s.enclosing).bind fun r => ?_
    obtain ⟨upvalue, current, enclosing⟩ := r
    have hset : Triple Compiler.Erred
        (fun s' => (s' = s ∧ s₀.Good closing pending nesting s) ∧
          (UpvaluesOk (s.current :: s.enclosing) →
            UpvalueResolved s.current s.enclosing (upvalue, current, enclosing)))
        (modify fun s => { s with current, enclosing } : CompileM PUnit) fun _ s' =>
          s₀.Good closing pending nesting s' ∧
            ∀ i, upvalue = some i → i < s'.current.upvalues.length := by
      refine triple_modify (fun _ h => h) ?_
      rintro _ ⟨⟨rfl, h⟩, hresolved⟩
      have hr := hresolved h.ok.upvalues
      exact ⟨h.resolved hr, hr.there⟩
    refine hset.bind fun _ => ?_
    cases upvalue with
    | some i =>
      refine triple_pure fun s' ⟨h, hthere⟩ => ⟨h, .inr (.inl ⟨⟨rfl, rfl⟩, ?_⟩)⟩
      have hi := hthere i rfl
      have hle := upvaluesOk_bounded h.ok.upvalues
      show (UInt8.ofNat i).toNat < _
      rw [UInt8.toNat_ofNat', Nat.mod_eq_of_lt (by omega)]
      exact hi
    | none =>
      refine ((triple_identifierConstant _ s₀ pending nesting).strengthen fun _ h => h.1).bind
        fun arg => (triple_isMutuableBinding _).bind fun _ => triple_pure fun s' h => ?_
      exact ⟨h.1, .inr (.inr ⟨⟨rfl, rfl⟩, h.2⟩)⟩

theorem triple_emitVariable {ref : VarRef} {op : OpCode} (hop : op = ref.getOp ∨ op = ref.setOp)
    (s₀ : Compiler) (pending : Pending) (nesting : Nesting) :
    Triple Compiler.Erred (fun s => s₀.Good closing pending nesting s ∧ s.Resolves ref)
      (emitBytes op.toByte ref.arg) fun _ => s₀.Good closing pending nesting := by
  refine triple_emitBytes fun s ⟨h, hresolves⟩ => ?_
  rcases hresolves with ⟨hget, hset⟩ | ⟨⟨hget, hset⟩, hindex⟩ | ⟨⟨hget, hset⟩, hconstant⟩ <;>
    rw [hget, hset] at hop
  · rcases hop with rfl | rfl <;> exact h.emittedFree (by decide) rfl
  · exact h.emittedUpvalue hop hindex
  · rcases hop with rfl | rfl <;> exact h.emittedConstant rfl (by decide) rfl hconstant

theorem keepsShape_getVariable (name : Token) :
    KeepsShape closing (do emitGet (← resolveVariable name)) :=
  fun s₀ pending nesting => (triple_resolveVariable name s₀ pending nesting).bind fun _ =>
    triple_emitVariable (.inl rfl) s₀ pending nesting

/-! ### Declarations and scopes -/

theorem keepsShape_addLocal (name : Token) (isMutable : Bool) :
    KeepsShape closing (addLocal name isMutable) :=
  keepsShape_read fun _ => .ite (fun _ => keepsShape_compilerErrorAtToken _ _) fun _ =>
    .ite (fun _ => keepsShape_compilerErrorAtToken _ _) fun _ =>
      keepsShape_currentStackHeight.bind fun _ => keepsShape_modify fun _ => rfl

theorem keepsShape_declareVariable (name : Token) (isMutable : Bool) :
    KeepsShape closing (declareVariable name isMutable) :=
  keepsShape_read fun _ =>
    .ite (fun _ => keepsShape_pure ()) fun _ => keepsShape_addLocal name isMutable

theorem keepsShape_checkImmutableRedeclaration (name : Token) :
    KeepsShape closing (checkImmutableRedeclaration name) :=
  KeepsShape.bind (fun _ _ _ => triple_isMutuableBinding name) fun _ =>
    .ite (fun _ => keepsShape_compilerErrorAtToken _ _) fun _ => keepsShape_pure ()

theorem keepsShape_markInitialized : KeepsShape closing markInitialized :=
  keepsShape_read fun _ =>
    .ite (fun _ => keepsShape_pure ()) fun _ => keepsShape_modify fun _ => rfl

/-- A global is named by a constant; a local needs none. -/
def Compiler.Defines (global : UInt8) (s : Compiler) : Prop :=
  s.current.scopeDepth = 0 → s.HasConstant .string global

theorem stable_defines (global : UInt8) : Stable (Compiler.Defines global) := by
  intro s s' hstays h hdepth
  exact stable_hasConstant _ _ s s' hstays (h (hstays.scopeDepth.symm.trans hdepth))

theorem triple_parseVariableFromToken (name : Token) (isMutable : Bool) (s₀ : Compiler)
    (pending : Pending) (nesting : Nesting) :
    Triple Compiler.Erred (s₀.Good closing pending nesting) (parseVariableFromToken name isMutable)
      fun global s => s₀.Good closing pending nesting s ∧ s.Defines global := by
  refine (keepsShape_declareVariable name isMutable s₀ pending nesting).bind fun _ =>
    triple_get fun s => .ite (fun hpos => ?_) fun _ => ?_
  · refine triple_pure ?_
    rintro _ ⟨rfl, h⟩
    exact ⟨h, fun hzero => absurd hzero (Nat.ne_of_gt hpos)⟩
  · have hline : KeepsShape closing (setLine name.line) := keepsShape_setLine _
    have hcheck : KeepsShape closing (checkImmutableRedeclaration name) :=
      keepsShape_checkImmutableRedeclaration _
    have hbinding : KeepsShape closing (addImmutableBinding name) := keepsShape_modify fun _ => rfl
    refine ((hline s₀ pending nesting).strengthen ?_).bind fun _ => ?_
    · rintro _ ⟨rfl, h⟩
      exact h
    refine (hcheck s₀ pending nesting).bind fun _ => ?_
    refine (triple_identifierConstant name s₀ pending nesting).bind fun constant => ?_
    refine .ite (fun _ => ?_) fun _ => triple_pure fun s h => ⟨h.1, fun _ => h.2⟩
    exact (hbinding.carrying (stable_hasConstant _ constant) s₀ pending nesting).bind fun _ =>
      triple_pure fun s h => ⟨h.1, fun _ => h.2⟩

theorem triple_defineVariable (global : UInt8) (s₀ : Compiler) (pending : Pending)
    (nesting : Nesting) :
    Triple Compiler.Erred (fun s => s₀.Good closing pending nesting s ∧ s.Defines global)
      (defineVariable global) fun _ => s₀.Good closing pending nesting := by
  refine triple_get fun s => .ite (fun _ => ?_) fun hzero => ?_
  · refine (keepsShape_markInitialized s₀ pending nesting).strengthen ?_
    rintro _ ⟨rfl, h, -⟩
    exact h
  · refine (triple_emitConstant rfl (by decide) rfl s₀ pending nesting).strengthen ?_
    rintro _ ⟨rfl, h, hdefines⟩
    exact ⟨h, hdefines (Nat.eq_zero_of_not_pos hzero)⟩

theorem keepsShape_emitPops (locals : List Local) : KeepsShape closing (emitPops locals) := by
  refine keepsShape_forM fun l _ => ?_
  unfold popOf
  split <;> exact keepsShape_emitOp (by decide) rfl

theorem keepsShape_emitPopsToDepth (targetDepth : ℕ) :
    KeepsShape closing (emitPopsToDepth targetDepth) :=
  keepsShape_read fun _ => keepsShape_emitPops _

/-- One more scope is open. -/
def Nesting.inScope (nesting : Nesting) : Nesting := { nesting with scopes := nesting.scopes + 1 }

/-- One more loop is open. -/
def Nesting.inLoop (nesting : Nesting) : Nesting := { nesting with loops := nesting.loops + 1 }

theorem Compiler.Good.withDepth {depth : ℕ} {nesting' : Nesting}
    (h : s₀.Good closing pending nesting s) (hloops : nesting'.loops = nesting.loops)
    (hdepth : depth = s₀.current.scopeDepth + nesting'.scopes) :
    s₀.Good closing pending nesting' { s with
      current := { s.current with scopeDepth := depth } } := by
  have hedits : s.Edits { s with current := { s.current with scopeDepth := depth } } :=
    .inside rfl (List.prefix_refl _) id rfl rfl rfl rfl rfl (List.prefix_refl _) id
  obtain ⟨hcarries, hcode⟩ := hedits.shaped_same h.ok rfl
  exact ⟨hedits.ok h.ok hcarries hcode h.ok.counted h.ok.returns,
    hedits.grows h.grows h.grows.code hloops hdepth, h.fresh⟩

theorem triple_beginScope (s₀ : Compiler) (pending : Pending) (nesting : Nesting) :
    Triple Compiler.Erred (s₀.Good closing pending nesting) beginScope fun _ =>
      s₀.Good closing pending nesting.inScope :=
  triple_modify (fun _ h => h) fun _ h => h.withDepth rfl (by rw [h.grows.scopeDepth]; rfl)

theorem triple_leaveScope (s₀ : Compiler) (pending : Pending) (nesting : Nesting) :
    Triple Compiler.Erred (s₀.Good closing pending nesting.inScope)
      (modifyCurrent fun c => { c with scopeDepth := c.scopeDepth - 1 }) fun _ =>
        s₀.Good closing pending nesting :=
  triple_modify (fun _ h => h) fun _ h => h.withDepth rfl (by rw [h.grows.scopeDepth]; rfl)

theorem triple_endScope (s₀ : Compiler) (pending : Pending) (nesting : Nesting) :
    Triple Compiler.Erred (s₀.Good closing pending nesting.inScope) endScope fun _ =>
      s₀.Good closing pending nesting := by
  have hclean : KeepsShape closing captureOrCleanLocalsGoingOutOfScope :=
    keepsShape_read fun _ => (keepsShape_emitPops _).bind fun _ => keepsShape_modify fun _ => rfl
  exact (triple_leaveScope s₀ pending nesting).bind fun _ => hclean s₀ pending nesting

theorem triple_compileBlockExprClose (s₀ : Compiler) (pending : Pending) (nesting : Nesting) :
    Triple Compiler.Erred (s₀.Good closing pending nesting.inScope) compileBlockExprClose fun _ =>
      s₀.Good closing pending nesting := by
  have hclose : ∀ count : ℕ, KeepsShape closing (do
      modifyCurrent fun c => { c with locals := c.locals.drop count }
      emitBytes OpCode.closeBlockExpr.toByte (lowByte count)) := fun count =>
    KeepsShape.bind (keepsShape_modify fun _ => rfl) fun _ =>
      keepsShape_emitOperand (by decide) rfl _
  refine (triple_leaveScope s₀ pending nesting).bind fun _ => ?_
  exact triple_read fun _ => hclose _ s₀ pending nesting

end KirbyLang
