import KirbyLang.Compiler
import KirbyLang.Session
import KirbyLang.StepLaw

/-!
# Comparison

`a >= b` is compiled to `OP_LESS` and `OP_NOT`, and `a <= b` to `OP_GREATER` and `OP_NOT`. That is
`a > b` or `a == b` where the order is total, which it is but for NaN: with a NaN on either side both
are true, and `<`, `>` and `==` are false.

* `emitted`: the code that the compiler emits for an operator;
* `evaluated`: what that code makes of the two values on top of the stack;
* `evaluated_eq`: it is `comparison`;
* `keepsComparison_iff`: the operators agree exactly on numbers that are not NaN.
-/

namespace KirbyLang

/-! ### The order of numbers -/

/-- One of the operands is NaN. -/
def HasNan (kind : NumberKind) (a b : NumberPayload) : Prop :=
  kind.info.isFloat = true ∧ (a.isNan = true ∨ b.isNan = true)

/-- The place of a number among those of its kind. -/
def numberOrder (kind : NumberKind) (p : NumberPayload) : ℤ :=
  if kind.info.isFloat then p.f64Order else if kind.info.isSigned then p.i64 else p.u64

section Order

variable {kind : NumberKind} {a b : NumberPayload}

theorem HasNan.symm (h : HasNan kind a b) : HasNan kind b a := ⟨h.1, h.2.symm⟩

theorem HasNan.not_less (h : HasNan kind a b) : numberOpLessThan kind a b = false := by
  obtain ⟨hfloat, hnan⟩ := h
  unfold numberOpLessThan NumberPayload.f64Less
  rw [if_pos hfloat]
  rcases hnan with hnan | hnan <;> simp [hnan]

theorem HasNan.not_equal (h : HasNan kind a b) :
    Vm.valuesEqual (.number kind a) (.number kind b) = false := by
  obtain ⟨hfloat, hnan⟩ := h
  simp only [Vm.valuesEqual, beq_self_eq_true, Bool.true_and, hfloat, if_true,
    NumberPayload.f64Equal]
  rcases hnan with hnan | hnan <;> simp [hnan]

theorem not_isNan (h : ¬ HasNan kind a b) (hfloat : kind.info.isFloat = true) :
    a.isNan = false ∧ b.isNan = false :=
  ⟨Bool.eq_false_iff.mpr fun ha => h ⟨hfloat, .inl ha⟩,
    Bool.eq_false_iff.mpr fun hb => h ⟨hfloat, .inr hb⟩⟩

theorem numberOpLessThan_iff (h : ¬ HasNan kind a b) :
    numberOpLessThan kind a b = true ↔ numberOrder kind a < numberOrder kind b := by
  unfold numberOpLessThan numberOrder
  by_cases hfloat : kind.info.isFloat = true
  · obtain ⟨ha, hb⟩ := not_isNan h hfloat
    simp [hfloat, NumberPayload.f64Less, ha, hb]
  · by_cases hsigned : kind.info.isSigned = true
    · simp [hfloat, hsigned]
    · simp [hfloat, hsigned]

theorem valuesEqual_number_iff (h : ¬ HasNan kind a b) :
    Vm.valuesEqual (.number kind a) (.number kind b) = true ↔
      numberOrder kind a = numberOrder kind b := by
  simp only [Vm.valuesEqual, beq_self_eq_true, Bool.true_and]
  unfold numberOrder
  by_cases hfloat : kind.info.isFloat = true
  · obtain ⟨ha, hb⟩ := not_isNan h hfloat
    simp [hfloat, NumberPayload.f64Equal, ha, hb]
  · by_cases hsigned : kind.info.isSigned = true
    · have hinj : a.i64 = b.i64 ↔ a.u64 = b.u64 := by
        constructor
        · intro heq
          exact congrArg UInt64.toNat (UInt64.toBitVec_inj.mp (BitVec.toInt_inj.mp heq))
        · intro heq
          exact congrArg NumberPayload.i64 (UInt64.toNat_inj.mp heq)
      simp [hfloat, hsigned, hinj]
    · simp [hfloat, hsigned]

end Order

/-! ### The code of an operator -/

/-- The code that is emitted behind the code that is there. -/
def emitted (p : CompileM Unit) (s : Compiler) : List UInt8 :=
  ((p s).2.current.fn.code.drop s.current.fn.code.length).map CodeByte.byte

/-- The instructions of a comparison. -/
def comparisonCode : TokenType → List OpCode
  | .greater => [.greater]
  | .greaterEqual => [.less, .not_]
  | .less => [.less]
  | .lessEqual => [.greater, .not_]
  | .equalEqual => [.equal]
  | .bangEqual => [.equal, .not_]
  | _ => []

def comparisons : List TokenType :=
  [.greater, .greaterEqual, .less, .lessEqual, .equalEqual, .bangEqual]

theorem emitted_comparison {op : Token} (hop : op.type ∈ comparisons) (s : Compiler) :
    emitted (emitBinaryOp op) s = (comparisonCode op.type).map OpCode.toByte := by
  have hone : ∀ byte, emitted (emitByte byte) s = [byte] := by
    intro byte
    show ((s.current.fn.code ++ [CodeByte.mk byte s.currentLine]).drop
      s.current.fn.code.length).map _ = _
    rw [List.drop_left]
    rfl
  have htwo : ∀ byte byte', emitted (emitBytes byte byte') s = [byte, byte'] := by
    intro byte byte'
    show (((s.current.fn.code ++ [CodeByte.mk byte s.currentLine]) ++
      [CodeByte.mk byte' s.currentLine]).drop s.current.fn.code.length).map _ = _
    rw [List.append_assoc, List.drop_left]
    rfl
  simp only [comparisons, List.mem_cons, List.not_mem_nil, or_false] at hop
  unfold emitBinaryOp
  rcases hop with h | h | h | h | h | h <;> rw [h] <;> first | exact hone _ | exact htwo _ _

/-- A comparison is compiled to its operands and the code of the operator. -/
theorem compileNode_comparison (line : ℤ) (op : Token) (left right : AstNode) :
    (compileNode (.binary line op left right false)).asExpr = (do
      setLine line
      (compileNode left).asExpr
      (compileNode right).asExpr
      emitBinaryOp op) := by
  simp only [compileNode, NodeCompiler.ofExpr, Bool.false_eq_true, false_and, if_false]

namespace Vm

open Laws

/-! ### Running the code -/

/-- What comes next in the code of the running function. -/
def VM.CodeAhead (vm : VM) (bytes : List UInt8) : Prop :=
  ∃ frame rest function, vm.frames = frame :: rest ∧ 0 ≤ frame.ip ∧
    functionOfClosure frame.closure vm = (.ok function, vm) ∧
    bytes <+: (function.chunk.code.drop frame.ip.toNat).map CodeByte.byte

/-- What instructions without operands leave on top of the stack, when it is a boolean. -/
def evaluated (host : Host) (code : List UInt8) (vm : VM) : Option Bool :=
  match run host code.length vm with
  | (.ok none, vm') =>
    match vm'.stack (vm'.stackTop - 1) with
    | .boolean value => some value
    | _ => none
  | _ => none

variable {host : Host} {vm vm' : VM} {kind : NumberKind} {a b : NumberPayload}

theorem evaluated_of_run {code : List UInt8} {value : Bool}
    (hrun : run host code.length vm = (.ok none, vm'))
    (htop : vm'.stack (vm'.stackTop - 1) = .boolean value) : evaluated host code vm = some value := by
  unfold evaluated
  rw [hrun]
  simp only [htop]

theorem VM.CodeAhead.congr {bytes : List UInt8} (h : vm.CodeAhead bytes) (hgc : vm'.gc = vm.gc)
    (hframes : vm'.frames = vm.frames) : vm'.CodeAhead bytes := by
  obtain ⟨frame, rest, function, hframe, hip, hfunction, hbytes⟩ := h
  obtain ⟨-, o, ho, hthere⟩ := functionOfClosure_eq_ok.mp hfunction
  exact ⟨frame, rest, function, hframes.trans hframe, hip,
    functionOfClosure_eq_ok.mpr ⟨rfl, o, by rw [hgc]; exact ho, by rw [hgc]; exact hthere⟩, hbytes⟩

/-- The next instruction is read and carried out. -/
theorem VM.CodeAhead.step {op : OpCode} {ops : List UInt8} (h : vm.CodeAhead (op.toByte :: ops)) :
    ∃ frames, step host vm =
        execute host op (VM.logged { vm with frames } (.instruction op)) ∧
      VM.CodeAhead { vm with frames } ops := by
  obtain ⟨frame, rest, function, hframe, hip, hfunction, hbytes⟩ := h
  obtain ⟨tail, htail⟩ := hbytes
  obtain ⟨code, codes, hcodes, hcode, hcodes'⟩ := List.map_eq_cons_iff.mp htail.symm
  have hget : function.chunk.code[frame.ip.toNat]? = some code := by
    rw [← List.head?_drop, hcodes]
    rfl
  have hread : readByte vm =
      (.ok op.toByte, { vm with frames := { frame with ip := frame.ip + 1 } :: rest }) :=
    readByte_eq_ok.mpr ⟨frame, rest, ⟨hframe, hip, function, code, hfunction, hget, hcode⟩, rfl⟩
  refine ⟨{ frame with ip := frame.ip + 1 } :: rest, (bind_ok hread).trans ?_, ?_⟩
  · rw [OpCode.ofByte?_toByte]
    rfl
  · obtain ⟨-, o, ho, hthere⟩ := functionOfClosure_eq_ok.mp hfunction
    refine ⟨_, rest, function, rfl, show 0 ≤ frame.ip + 1 by omega,
      functionOfClosure_eq_ok.mpr ⟨rfl, o, ho, hthere⟩, tail, ?_⟩
    have hdrop : function.chunk.code.drop (frame.ip + 1).toNat = codes := by
      rw [show (frame.ip + 1).toNat = frame.ip.toNat + 1 by omega, ← List.drop_drop, hcodes]
      rfl
    show ops ++ tail = (function.chunk.code.drop (frame.ip + 1).toNat).map CodeByte.byte
    rw [hdrop, hcodes']
    rfl

/-- Two operands give way to a value. -/
def VM.reduced (vm : VM) (value : Value) : VM :=
  { vm with toMemory := ((vm.toMemory.popped 1).popped 1).pushed value }

theorem VM.reduced_top (vm : VM) (value : Value) :
    (vm.reduced value).stack ((vm.reduced value).stackTop - 1) = value := by
  simp [VM.reduced, Memory.popped, Memory.pushed]

/-- Two numbers of one kind are on top of the stack. -/
def VM.Operands (vm : VM) (kind : NumberKind) (a b : NumberPayload) : Prop :=
  vm.stack (vm.stackTop - 1 - 0) = .number kind b ∧ vm.stack (vm.stackTop - 1 - 1) = .number kind a

theorem numberCompare_eq (h : vm.Operands kind a b) (greater : Bool) :
    orFailed (numberCompare greater) vm = (.ok none, vm.reduced (.boolean
      (if greater then numberOpLessThan kind b a else numberOpLessThan kind a b))) := by
  have hb : peekStack 0 vm = (.ok (.number kind b), vm) := Prod.ext (congrArg Except.ok h.1) rfl
  have ha : peekStack 1 vm = (.ok (.number kind a), vm) := Prod.ext (congrArg Except.ok h.2) rfl
  have hkind : sameNumberKind (.number kind a) (.number kind b) = some (kind, a, b) := by
    simp [sameNumberKind]
  have hcompare : numberCompare greater vm = (.ok true, vm.reduced (.boolean
      (if greater then numberOpLessThan kind b a else numberOpLessThan kind a b))) := by
    refine (bind_ok hb).trans ((bind_ok ha).trans ?_)
    rw [hkind]
    rfl
  exact (bind_ok hcompare).trans rfl

theorem equal_eq (h : vm.Operands kind a b) : execute host .equal vm = (.ok none, vm.reduced
    (.boolean (valuesEqual (.number kind a) (.number kind b)))) := by
  have hb : vm.stack (vm.stackTop - 1) = .number kind b := by simpa using h.1
  have ha : vm.stack (vm.stackTop - 1 - 1) = .number kind a := h.2
  show (Except.ok none, vm.reduced (.boolean
    (valuesEqual (vm.stack (vm.stackTop - 1 - 1)) (vm.stack (vm.stackTop - 1))))) = _
  rw [ha, hb]

/-- The instruction before the negation, and what it gives. -/
def comparing (kind : NumberKind) (a b : NumberPayload) : OpCode → Bool
  | .greater => numberOpLessThan kind b a
  | .less => numberOpLessThan kind a b
  | .equal => valuesEqual (.number kind a) (.number kind b)
  | _ => false

theorem execute_comparing {op : OpCode} (hop : op ∈ [OpCode.greater, .less, .equal])
    (h : vm.Operands kind a b) :
    execute host op vm = (.ok none, vm.reduced (.boolean (comparing kind a b op))) := by
  simp only [List.mem_cons, List.not_mem_nil, or_false] at hop
  rcases hop with rfl | rfl | rfl
  · exact numberCompare_eq h true
  · exact numberCompare_eq h false
  · exact equal_eq h

theorem evaluated_comparing {op : OpCode} (hop : op ∈ [OpCode.greater, .less, .equal])
    (h : vm.Operands kind a b) (hcode : vm.CodeAhead [op.toByte]) :
    evaluated host [op.toByte] vm = some (comparing kind a b op) := by
  obtain ⟨frames, hstep, -⟩ := @VM.CodeAhead.step host vm op [] hcode
  rw [@execute_comparing host (VM.logged { vm with frames } _) kind a b op hop h] at hstep
  have hrun : run host 1 vm = (.ok none, _) := (bind_ok hstep).trans rfl
  exact evaluated_of_run hrun (VM.reduced_top _ _)

theorem evaluated_negated {op : OpCode} (hop : op ∈ [OpCode.greater, .less, .equal])
    (h : vm.Operands kind a b) (hcode : vm.CodeAhead [op.toByte, OpCode.not_.toByte]) :
    evaluated host [op.toByte, OpCode.not_.toByte] vm = some (!comparing kind a b op) := by
  obtain ⟨frames, hstep, hahead⟩ := @VM.CodeAhead.step host vm op [OpCode.not_.toByte] hcode
  rw [@execute_comparing host (VM.logged { vm with frames } _) kind a b op hop h] at hstep
  generalize hmid : VM.reduced _ (.boolean (comparing kind a b op)) = mid at hstep
  have htop : mid.stack (mid.stackTop - 1) = .boolean (comparing kind a b op) := by
    rw [← hmid, VM.reduced_top]
  have hnext : mid.CodeAhead [OpCode.not_.toByte] :=
    hahead.congr (by rw [← hmid]; rfl) (by rw [← hmid]; rfl)
  obtain ⟨frames', hstep', -⟩ := @VM.CodeAhead.step host mid .not_ [] hnext
  let w : VM := VM.logged { mid with frames := frames' } (.instruction .not_)
  have hnot : execute host .not_ w = (.ok none, w.topped (.boolean (!comparing kind a b op))) := by
    show (Except.ok none, w.topped (.boolean (isFalsey (mid.stack (mid.stackTop - 1))))) = _
    rw [htop]
    rfl
  have hrun : run host 2 vm = (.ok none, _) :=
    (bind_ok hstep).trans ((bind_ok (hstep'.trans hnot)).trans rfl)
  exact evaluated_of_run hrun (VM.topped_top _ _)

/-- What a comparison of two numbers gives. -/
def comparison (kind : NumberKind) (a b : NumberPayload) : TokenType → Bool
  | .greater => numberOpLessThan kind b a
  | .greaterEqual => !numberOpLessThan kind a b
  | .less => numberOpLessThan kind a b
  | .lessEqual => !numberOpLessThan kind b a
  | .equalEqual => valuesEqual (.number kind a) (.number kind b)
  | .bangEqual => !valuesEqual (.number kind a) (.number kind b)
  | _ => false

/-- The code of a comparison evaluates to what the comparison is. -/
theorem evaluated_eq {type : TokenType} (htype : type ∈ comparisons) (h : vm.Operands kind a b)
    (hcode : vm.CodeAhead ((comparisonCode type).map OpCode.toByte)) :
    evaluated host ((comparisonCode type).map OpCode.toByte) vm = some (comparison kind a b type) := by
  simp only [comparisons, List.mem_cons, List.not_mem_nil, or_false] at htype
  rcases htype with rfl | rfl | rfl | rfl | rfl | rfl
  · exact evaluated_comparing (by simp) h hcode
  · exact evaluated_negated (by simp) h hcode
  · exact evaluated_comparing (by simp) h hcode
  · exact evaluated_negated (by simp) h hcode
  · exact evaluated_comparing (by simp) h hcode
  · exact evaluated_negated (by simp) h hcode

/-! ### The laws -/

/-- The two operands are on top of the stack, and the code of the operator is next. -/
structure VM.AtOperator (vm : VM) (op : Token) (s : Compiler) (kind : NumberKind)
    (a b : NumberPayload) : Prop where
  operands : vm.Operands kind a b
  code : vm.CodeAhead (emitted (emitBinaryOp op) s)

/-- What the compiled operator makes of the operands. -/
def evaluatedOperator (host : Host) (op : Token) (s : Compiler) (vm : VM) : Option Bool :=
  evaluated host (emitted (emitBinaryOp op) s) vm

/-- An operator with `=` is true of two numbers exactly when the one without it or `==` is, wherever
they are compared. -/
def KeepsComparison (host : Host) (orEqual strict : TokenType) (kind : NumberKind)
    (a b : NumberPayload) : Prop :=
  ∀ (op op' op'' : Token) (s s' s'' : Compiler) (vm vm' vm'' : VM), op.type = orEqual →
    op'.type = strict → op''.type = .equalEqual → vm.AtOperator op s kind a b →
    vm'.AtOperator op' s' kind a b → vm''.AtOperator op'' s'' kind a b →
    (evaluatedOperator host op s vm = some true ↔
      evaluatedOperator host op' s' vm' = some true ∨
        evaluatedOperator host op'' s'' vm'' = some true)

theorem VM.AtOperator.evaluated {op : Token} {s : Compiler} (h : vm.AtOperator op s kind a b)
    (hop : op.type ∈ comparisons) :
    evaluatedOperator host op s vm = some (comparison kind a b op.type) := by
  unfold evaluatedOperator
  rw [emitted_comparison hop s]
  exact evaluated_eq hop h.operands (emitted_comparison hop s ▸ h.code)

/-- A machine that is about to compare two numbers. -/
def comparingVM (code : List OpCode) (kind : NumberKind) (a b : NumberPayload) : VM where
  gc :=
    { heap := fun r =>
        if r = 1 then some (.function { chunk := { code := code.map fun op => ⟨op.toByte, 1⟩ } })
        else if r = 2 then some (.closure { function := 1, upvalues := [] })
        else none
      objects := [2, 1]
      nextRef := 3
      policy := thresholdPolicy }
  stack := fun slot => if slot = 0 then .obj 2 else if slot = 1 then .number kind a else .number kind b
  stackTop := 3
  frames := [{ closure := 2, ip := 0, slots := 0 }]

theorem comparingVM_atOperator {op : Token} (hop : op.type ∈ comparisons) (s : Compiler) :
    (comparingVM (comparisonCode op.type) kind a b).AtOperator op s kind a b := by
  refine ⟨⟨rfl, rfl⟩, ?_⟩
  rw [emitted_comparison hop s]
  refine ⟨_, _, _, rfl, le_rfl, rfl, ?_⟩
  show _ <+: ((List.map _ (comparisonCode op.type)).drop 0).map CodeByte.byte
  rw [List.drop_zero, List.map_map]
  exact List.prefix_rfl

theorem keepsComparison_iff_comparison (host : Host) {orEqual strict : TokenType}
    (horEqual : orEqual ∈ comparisons) (hstrict : strict ∈ comparisons) :
    KeepsComparison host orEqual strict kind a b ↔ (comparison kind a b orEqual = true ↔
      comparison kind a b strict = true ∨ comparison kind a b .equalEqual = true) := by
  have hequal : TokenType.equalEqual ∈ comparisons := by decide
  constructor
  · intro h
    have hlaw := h ⟨orEqual, [], 1⟩ ⟨strict, [], 1⟩ ⟨.equalEqual, [], 1⟩ (startCompiler {})
      (startCompiler {}) (startCompiler {}) _ _ _ rfl rfl rfl
      (comparingVM_atOperator horEqual (startCompiler {}))
      (comparingVM_atOperator hstrict (startCompiler {}))
      (comparingVM_atOperator hequal (startCompiler {}))
    rw [(comparingVM_atOperator horEqual _).evaluated horEqual,
      (comparingVM_atOperator hstrict _).evaluated hstrict,
      (comparingVM_atOperator hequal _).evaluated hequal] at hlaw
    simpa using hlaw
  · rintro h op op' op'' s s' s'' vm vm' vm'' rfl rfl htype hvm hvm' hvm''
    rw [hvm.evaluated horEqual, hvm'.evaluated hstrict, hvm''.evaluated (htype ▸ hequal), htype]
    simpa using h

/-- The comparisons with `=` are what they should be exactly where neither number is NaN. -/
theorem keepsComparison_iff (host : Host) (kind : NumberKind) (a b : NumberPayload) :
    (KeepsComparison host .greaterEqual .greater kind a b ∧
      KeepsComparison host .lessEqual .less kind a b) ↔ ¬ HasNan kind a b := by
  rw [keepsComparison_iff_comparison host (by decide) (by decide),
    keepsComparison_iff_comparison host (by decide) (by decide)]
  simp only [comparison, Bool.not_eq_true']
  constructor
  · rintro ⟨hgreater, -⟩ hnan
    rcases hgreater.mp hnan.not_less with hless | hequal
    · rw [hnan.symm.not_less] at hless
      cases hless
    · rw [hnan.not_equal] at hequal
      cases hequal
  · intro hnan
    have hnan' : ¬ HasNan kind b a := fun h => hnan h.symm
    have hless := numberOpLessThan_iff hnan
    have hless' := numberOpLessThan_iff hnan'
    have hequal := valuesEqual_number_iff hnan
    rw [← Bool.not_eq_true, ← Bool.not_eq_true, hless, hless', hequal]
    omega

/-- The f64 1e308, and 10 and 1. -/
def large : NumberPayload := 0x7fe1ccf385ebc8a0
def ten : NumberPayload := 0x4024000000000000
def one : NumberPayload := 0x3ff0000000000000

/-- What a program prints, when it ends within a number of instructions. -/
def output (program : List AstNode) (rounds : ℕ) : Option Bytes := do
  let compiledUnit ← compiled program
  let vm ← initVM plainHost thresholdPolicy {}
  match interpret plainHost compiledUnit rounds vm with
  | (.ok (some .ok), vm') => some vm'.world.stdout
  | _ => none

def nativeCall (name : String) (arg : AstNode) : AstNode :=
  callNode (.variable_ 1 (tokenFromCString name)) [arg]

def f64Node (payload : NumberPayload) : AstNode := .literal 1 (.number { kind := .f64, payload })

/-- With `1e308 * 10.0 - 1e308 * 10.0` for `nan`: `@println(@boolToString(nan >= 1.0));` and the same
with `>` and `==`. -/
def nanProgram : List AstNode :=
  let infinite : AstNode := .binary 1 ⟨.star, [], 1⟩ (f64Node large) (f64Node ten) false
  let nan : AstNode := .binary 1 ⟨.minus, [], 1⟩ infinite infinite false
  [TokenType.greaterEqual, .greater, .equalEqual].map fun type => .exprStmt 1
    (nativeCall "@println" (nativeCall "@boolToString"
      (.binary 1 ⟨type, [], 1⟩ nan (f64Node one) false)))

/-- A number that is too large is infinite, and the difference of two such is NaN. It is `>=` 1, and
neither `>` 1 nor `==` 1. -/
theorem not_keepsComparison_nan :
    output nanProgram 70 = some (text "true\nfalse\nfalse\n") ∧ ∃ infinite nan,
      numberArithmetic plainLibc .f64 .multiply large ten = some infinite ∧
        numberArithmetic plainLibc .f64 .subtract infinite infinite = some nan ∧
        ¬ KeepsComparison plainHost .greaterEqual .greater .f64 nan one := by
  refine ⟨by decide +kernel, 0x7ff0000000000000, 0x7ff8000000000000, by decide +kernel,
    by decide +kernel, fun h => ?_⟩
  rw [keepsComparison_iff_comparison plainHost (by decide) (by decide)] at h
  revert h
  decide

end Vm

end KirbyLang
