import KirbyLang.CompiledUnit

/-!
# Tokens and syntax trees

`token.h` and `ast.h`. A token is its kind, its text and its line. Every node of the tree carries
the line the C node has. What the C comments say may be NULL is an `Option`; arrays that C keeps
as structures of a name and a node are two lists of the same length here, so that a node's
children are nodes, lists of nodes or optional nodes and nothing else:

* the fields of a struct declaration are `varDecl` nodes;
* the methods of an `impl` block and of a trait are `function` nodes;
* a struct literal keeps its field names and its field values, an interpolated string its
  conversions and its expressions.
-/

namespace KirbyLang

/-- The bytes of a C string of ASCII letters. -/
def ascii (text : String) : Bytes := text.toList.map fun c => UInt8.ofNat c.toNat

inductive TokenType
  | leftParen | rightParen | leftBrace | rightBrace | leftBracket | rightBracket
  | comma | colon | dot | minus | plus | semicolon | slash | star | modulo
  | bang | bangEqual | equal | equalEqual | fatArrow | greater | greaterEqual | less | lessEqual
  | questionQuestion
  | identifier | string
  | number | numberSuffixed
  | interpString | interpStart | interpMiddle | interpEnd
  | and_ | struct_ | impl | trait_ | else_ | false_ | for_ | fun_ | if_ | nil | or_ | pub
  | return_ | self_ | true_ | type_ | var | let_ | while_ | break_ | continue_ | as_
  | error | eof
  deriving DecidableEq, Repr

structure Token where
  type : TokenType
  text : Bytes
  line : ℤ
  deriving DecidableEq, Repr

/-- True when both tokens have the same text. -/
def tokensEqual (a b : Token) : Bool := a.text == b.text

def tokenTextEquals (token : Token) (text : String) : Bool := token.text == ascii text

/-- An identifier token for a C string. -/
def tokenFromCString (text : String) : Token := ⟨.identifier, ascii text, 0⟩

/-- A number literal. The last three fields are for a plain, unsuffixed integer: its kind is i64
unless the type checker changes it. -/
structure NumberLiteral where
  kind : NumberKind
  payload : NumberPayload
  literalIsPlainInteger : Bool := false
  literalValue : UInt64 := 0
  literalValueFits : Bool := false
  deriving DecidableEq, Repr

inductive LiteralNode
  | nil
  | unit
  | boolean (value : Bool)
  | number (value : NumberLiteral)
  | string (chars : Bytes)
  deriving DecidableEq, Repr

/-- How a value becomes a string. -/
inductive StringConversion
  /-- not yet chosen by the type checker -/
  | undefined
  /-- already a string -/
  | string
  /-- `@numberToString` -/
  | number
  /-- `@boolToString` -/
  | boolean
  /-- `toString()`, from the type's Display impl -/
  | display
  deriving DecidableEq, Repr

/-- Type expressions. -/
inductive TypeNode
  | named (line : ℤ) (name : Token) (genericArgs : List TypeNode)
  | function (line : ℤ) (paramTypes : List TypeNode) (returnType : TypeNode)
  | list (line : ℤ) (elementType : TypeNode)
  | array (line : ℤ) (elementType : TypeNode) (length : ℤ)

/-- What `FunctionNode` holds besides its body. -/
structure FunctionInfo where
  name : Token
  params : List Token
  paramTypes : List (Option TypeNode)
  returnType : Option TypeNode
  bodyEndLine : ℤ
  isMethod : Bool := false
  hasSelf : Bool := false
  isLambda : Bool := false
  isPublic : Bool := false
  isTraitSignature : Bool := false
  genericParams : List Token := []

/-- What `VarDeclNode` holds besides its initializer. -/
structure VarDeclInfo where
  name : Token
  declaredType : Option TypeNode
  declEndLine : ℤ
  isMutable : Bool
  isPublic : Bool := false

/-- What `ImplNode` holds besides its methods. `resolvedTarget` is what
`resolvedImplTargetsLookup` finds for the block: the name of the struct, recorded by the type
checker. -/
structure ImplInfo where
  targetName : Token
  resolvedTarget : Option Token := none
  genericParams : List Token := []
  traitName : Option Token
  endLine : ℤ

/-- What `TraitNode` holds besides its methods. -/
structure TraitInfo where
  name : Token
  supertrait : Option Token
  endLine : ℤ
  isBuiltin : Bool := false

inductive AstNode
  | literal (line : ℤ) (literal : LiteralNode)
  | unary (line : ℤ) (op : Token) (operand : AstNode)
  | binary (line : ℤ) (op : Token) (left right : AstNode) (isStringConcat : Bool)
  | cast (line : ℤ) (expr : AstNode) (type : TypeNode) (as_ : Token) (target : NumberKind)
  | grouping (line : ℤ) (inner : AstNode)
  | variable_ (line : ℤ) (name : Token)
  | assign (line : ℤ) (name : Token) (value : AstNode)
  | and_ (line : ℤ) (left right : AstNode)
  | or_ (line : ℤ) (left right : AstNode)
  | nullish (line : ℤ) (left right : AstNode)
  | call (line : ℤ) (callee : AstNode) (paren : Token) (args : List AstNode)
      (argUsesDisplay : Bool)
  | get (line : ℤ) (object : AstNode) (name : Token)
  | set (line : ℤ) (object : AstNode) (name : Token) (value : AstNode)
  | self_ (line : ℤ) (keyword : Token)
  | indexGet (line : ℤ) (object index : AstNode) (bracket : Token)
  | indexSet (line : ℤ) (object index value : AstNode) (bracket : Token)
  | exprStmt (line : ℤ) (expr : AstNode)
  | varDecl (line : ℤ) (decl : VarDeclInfo) (initializer : Option AstNode)
  | block (line : ℤ) (stmts : List AstNode) (value : Option AstNode) (endLine : ℤ)
  | if_ (line : ℤ) (condition thenBranch : AstNode) (elseBranch : Option AstNode)
  | while_ (line : ℤ) (condition body : AstNode)
  | for_ (line : ℤ) (init : Option AstNode) (condition : AstNode) (increment : Option AstNode)
      (body : AstNode)
  | return_ (line : ℤ) (value : Option AstNode)
  | function (line : ℤ) (fn : FunctionInfo) (stmts : List AstNode) (value : Option AstNode)
      (exprBody : Option AstNode)
  | struct_ (line : ℤ) (name : Token) (genericParams : List Token) (fields : List AstNode)
      (endLine : ℤ)
  | structInit (line : ℤ) (name : Token) (fieldNames : List Token) (values : List AstNode)
      (endLine : ℤ)
  | impl (line : ℤ) (impl : ImplInfo) (methods : List AstNode)
  | trait_ (line : ℤ) (trait_ : TraitInfo) (methods : List AstNode)
  | array (line : ℤ) (items : List AstNode) (isFixedSize : Bool)
  | break_ (line : ℤ) (token : Token)
  | continue_ (line : ℤ) (token : Token)
  | typeAlias (line : ℤ) (name : Token) (genericParams : List Token) (target : TypeNode)
  | interpString (line : ℤ) (conversions : List StringConversion) (exprs : List AstNode)

namespace AstNode

/-- `node->line`. -/
def line : AstNode → ℤ
  | literal line .. | unary line .. | binary line .. | cast line .. | grouping line ..
  | variable_ line .. | assign line .. | and_ line .. | or_ line .. | nullish line ..
  | call line .. | get line .. | set line .. | self_ line .. | indexGet line ..
  | indexSet line .. | exprStmt line .. | varDecl line .. | block line .. | if_ line ..
  | while_ line .. | for_ line .. | return_ line .. | function line .. | struct_ line ..
  | structInit line .. | impl line .. | trait_ line .. | array line .. | break_ line ..
  | continue_ line .. | typeAlias line .. | interpString line .. => line

/-- The nodes directly below a node. -/
def children : AstNode → List AstNode
  | literal .. | variable_ .. | self_ .. | break_ .. | continue_ .. | typeAlias .. => []
  | unary _ _ a | cast _ a _ _ _ | grouping _ a | assign _ _ a | get _ a _ | exprStmt _ a => [a]
  | binary _ _ a b _ | and_ _ a b | or_ _ a b | nullish _ a b | set _ a _ b | indexGet _ a b _
  | while_ _ a b => [a, b]
  | indexSet _ a b c _ => [a, b, c]
  | call _ callee _ args _ => callee :: args
  | varDecl _ _ initializer => initializer.toList
  | block _ stmts value _ => stmts ++ value.toList
  | if_ _ condition thenBranch elseBranch => condition :: thenBranch :: elseBranch.toList
  | for_ _ init condition increment body => init.toList ++ condition :: increment.toList ++ [body]
  | return_ _ value => value.toList
  | function _ _ stmts value exprBody => stmts ++ value.toList ++ exprBody.toList
  | struct_ _ _ _ fields _ => fields
  | structInit _ _ _ values _ => values
  | impl _ _ methods | trait_ _ _ methods => methods
  | array _ items _ => items
  | interpString _ _ exprs => exprs

theorem sizeOf_lt_of_mem_children {node child : AstNode} (h : child ∈ node.children) :
    sizeOf child < sizeOf node := by
  have hlist : ∀ {as : List AstNode}, child ∈ as → sizeOf child < sizeOf as :=
    List.sizeOf_lt_of_mem
  have hoption : ∀ {a : Option AstNode}, child ∈ a.toList → sizeOf child < sizeOf a := by
    intro a ha
    obtain rfl := Option.mem_toList.mp ha
    simp
  cases node <;> simp [children] at h ⊢ <;> grind

/-- Induction over a tree by its nodes' children. -/
theorem childInduction {P : AstNode → Prop}
    (step : ∀ node : AstNode, (∀ child ∈ node.children, P child) → P node) (node : AstNode) :
    P node :=
  step node fun child _ => childInduction step child
termination_by sizeOf node
decreasing_by exact sizeOf_lt_of_mem_children ‹_›

def isFunction : AstNode → Bool
  | function .. => true
  | _ => false

def isStruct : AstNode → Bool
  | struct_ .. => true
  | _ => false

/-- An `impl` block with a trait name. -/
def isTraitImpl : AstNode → Bool
  | impl _ info _ => info.traitName.isSome
  | _ => false

/-- What `compile` compiles before everything else. -/
def isHoisted (node : AstNode) : Bool := node.isFunction || node.isStruct || node.isTraitImpl

end AstNode

/-- The order in which `compile` takes the top-level nodes. -/
def compileOrder (program : List AstNode) : List AstNode :=
  program.filter AstNode.isFunction ++ program.filter AstNode.isStruct ++
    program.filter AstNode.isTraitImpl ++ program.filter fun node => !node.isHoisted

end KirbyLang
