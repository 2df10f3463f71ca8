import KirbyLang.CompiledUnit
import KirbyLang.Lib.Cursor
import KirbyLang.Lib.LittleEndian
import KirbyLang.UnitBytes
import KirbyLang.UnitRoundTrip
import KirbyLang.Loader
import KirbyLang.UnitSafety
import KirbyLang.Ast
import KirbyLang.DefiniteAssignment
import KirbyLang.OpCode
import KirbyLang.AssignmentRuns
import KirbyLang.AssignmentSound
import KirbyLang.Compiler
import KirbyLang.Lib.Probing
import KirbyLang.HashTable
import KirbyLang.HashTableSound
import KirbyLang.Object
import KirbyLang.Memory
import KirbyLang.Gc
import KirbyLang.Lib.Tracing
import KirbyLang.GcExact
import KirbyLang.Allocation
import KirbyLang.Spared
import KirbyLang.Interning
import KirbyLang.StringRuns
import KirbyLang.NumberOps
import KirbyLang.Printing
import KirbyLang.NativeProgram
import KirbyLang.Native
import KirbyLang.Construction
import KirbyLang.Machine
import KirbyLang.Interpreter
import KirbyLang.Session
import KirbyLang.Evolution
import KirbyLang.Lib.Laws
import KirbyLang.Lib.Triples
import KirbyLang.Behaviour
import KirbyLang.InterpreterLaw
import KirbyLang.StepLaw
import KirbyLang.NativeRoom
import KirbyLang.StackRoom
import KirbyLang.InstructionRoom
import KirbyLang.ErrorsStop
import KirbyLang.StackBound
import KirbyLang.MemberAccess
import KirbyLang.Recovery
import KirbyLang.StackOverflow
import KirbyLang.Lib.CheckedWords
import KirbyLang.IntegerArithmetic
import KirbyLang.Lib.Files
import KirbyLang.PackagedProgram
import KirbyLang.PackagedReading
import KirbyLang.PackagedWriting
import KirbyLang.Lib.LexicalScopes
import KirbyLang.Types
import KirbyLang.TypeEnv
import KirbyLang.TypeParts
import KirbyLang.ValueChecks
import KirbyLang.GenericCalls
import KirbyLang.Lib.ForwardWalks
import KirbyLang.AssignmentFlow
import KirbyLang.FalseAlarms
import KirbyLang.Lib.DepthFirst
import KirbyLang.TypeResolution
import KirbyLang.TypeMeaning
import KirbyLang.AliasResolution
import KirbyLang.AliasExpansion
import KirbyLang.CircularAliases
import KirbyLang.ConstantPool
import KirbyLang.Lib.Chains
import KirbyLang.TableRuns
import KirbyLang.Supertraits
import KirbyLang.StringIndex
import KirbyLang.InternedNames
import KirbyLang.OpenUpvalues
import KirbyLang.Lib.Twins
import KirbyLang.Untraced
import KirbyLang.Invocation
import KirbyLang.Comparison
import KirbyLang.Lib.ExactDoubles
import KirbyLang.LiteralKinds
import KirbyLang.LiteralRetyping
import KirbyLang.TypeRelations
import KirbyLang.SelfSubstitution
import KirbyLang.Substitution
import KirbyLang.Scanner
import KirbyLang.LexicalModes
import KirbyLang.ScanRuns
import KirbyLang.TokenTiling
import KirbyLang.ScanContext
import KirbyLang.Interpolation
import KirbyLang.ParserState
import KirbyLang.Parser
import KirbyLang.ParserLaws
import KirbyLang.ParserReturns
import KirbyLang.ParserSafety
import KirbyLang.PrecedenceClimbing
import KirbyLang.CastPrecedence
import KirbyLang.CallEffects
import KirbyLang.CodeShape
import KirbyLang.CompilerLaw
import KirbyLang.CompilerBindings
import KirbyLang.CompilerFlow
import KirbyLang.CompilerFunctions
import KirbyLang.CompiledCode
import KirbyLang.ControlFlow
import KirbyLang.SessionStrings
import KirbyLang.Lib.Preorders
import KirbyLang.MemoryRules
