/-! # Errors

Every failure is a cause, with the text or sub-expression that it is about. The wording is given in
one place, `Error.message`.

* `TextFault`, `Limitation`, `Mismatch`, `Imbalance`: the causes, by kind.
* `Error`: the failures; `Error.message` and `Error.fragment?` describe them, `Error.kind` is the
  reason in short.
-/

set_option autoImplicit false

namespace DocQuery

/-- Why a text cannot be read. -/
inductive TextFault where
  /-- No expression can be read at `position`, where `rest` is what remains of the text. -/
  | unexpected (position : Nat) (rest : String)
  /-- An expression was read, but it is followed by more text. -/
  | trailing (position : Nat) (rest : String)
  /-- The text of an instruction trace is no JSON. -/
  | notJson (detail : String)
deriving DecidableEq, Repr

/-- What a construct is refused for. -/
inductive Limitation where
  | matrixProduct
  | negatedMembership
  | nestedMembership
  | keywordArguments
  | method (call : String)
  | function (call : String)
  | callee
  | noSqlForm (kind : String)
  | severalClauses
  | secondIteration (target : String)
  | chainedLowering
  | spreadLowering
  | sliceLowering
  | noLowering (kind : String)
  | unknownOperator
  | unknownComparison
  | unrecognizedShape
  | backwardJump (offset : Nat)
  | jumpBetween (offset : Nat)
  | mappingConstant
  | traceShape (detail : String)
deriving DecidableEq, Repr

/-- How a value is of the wrong kind. -/
inductive Mismatch where
  | noAttribute (label : String)
  | attributeOfValue
  | indexOfValue
  | indexKind
  | malformedComparison
  | lengthArity
  | lengthOfValue
  | patternArgument (method : String)
  | classAsValue (name : String)
  | notPath
  | notPathSource
  | unknownTable
deriving DecidableEq, Repr

/-- How the value stack of a trace goes wrong. -/
inductive Imbalance where
  | underflow (opcode : String) (offset : Nat)
  | leftover (values : List String) (start stop : Nat)
deriving DecidableEq, Repr

/-- A failure. -/
inductive Error where
  | unparseable (text : String) (fault : TextFault)
  | unsupported (fragment : String) (limit : Limitation)
  | mismatch (fragment : String) (cause : Mismatch)
  | imbalance (cause : Imbalance)
  /-- A function that declares parameters where none may be declared. -/
  | parameterized (detail : String)
  | configuration (detail : String)
  | file (detail : String)
deriving DecidableEq, Repr

/-- The kinds of failures. -/
inductive ErrorKind where
  | unparseable
  | unsupported
  | mismatch
  | imbalance
  | parameterized
  /-- A failure outside the compiler. -/
  | environment
deriving DecidableEq, Repr

def TextFault.reason : TextFault → String
  | unexpected position rest =>
    "unexpected input at position " ++ toString position ++ ": '" ++ rest ++ "'"
  | trailing position rest =>
    "unexpected trailing content '" ++ rest ++ "' at position " ++ toString position
  | notJson detail => "invalid trace JSON: " ++ detail

def Limitation.reason : Limitation → String
  | matrixProduct => "matrix multiplication"
  | negatedMembership => "negated array membership"
  | nestedMembership => "array membership is only supported as a condition of the query"
  | keywordArguments => "keyword arguments"
  | method call => "unsupported method in '" ++ call ++ "'"
  | function call => "unsupported function in '" ++ call ++ "'"
  | callee => "unsupported callee"
  | noSqlForm kind => kind ++ " has no SQL form here"
  | severalClauses => "only single-generator comprehensions are supported"
  | secondIteration target => "a second array iteration next to '" ++ target ++ "'"
  | chainedLowering => "chained comparisons cannot be lowered"
  | spreadLowering => "keyword and spread arguments cannot be lowered"
  | sliceLowering => "slices cannot be lowered"
  | noLowering kind => kind ++ " cannot be lowered to an instruction trace"
  | unknownOperator => "unknown binary operator"
  | unknownComparison => "unknown comparison"
  | unrecognizedShape => "unrecognized instruction shape"
  | backwardJump offset => "backward jump to offset " ++ toString offset
  | jumpBetween offset => "jump to offset " ++ toString offset ++ " between instructions"
  | mappingConstant => "mapping constants are not supported"
  | traceShape detail => detail

def Mismatch.reason : Mismatch → String
  | noAttribute label => "no attribute '" ++ label ++ "'"
  | attributeOfValue => "attribute of a non-object"
  | indexOfValue => "indexing a non-path"
  | indexKind => "index must be an integer or string literal"
  | malformedComparison => "malformed comparison"
  | lengthArity => "len() takes exactly one argument"
  | lengthOfValue => "len() of something that is not a field path"
  | patternArgument method => method ++ "() requires a single literal string argument"
  | classAsValue name => "class '" ++ name ++ "' is not a value"
  | notPath => "not a field path"
  | notPathSource => "comprehension must iterate over a field path"
  | unknownTable => "unknown table"

def Imbalance.detail : Imbalance → String
  | underflow opcode offset =>
    "stack underflow at " ++ opcode ++ " (offset " ++ toString offset ++ ")"
  | leftover values start stop =>
    toString values.length ++ " values on the stack after instructions " ++ toString start ++
      ".." ++ toString stop ++ ": [" ++ ", ".intercalate values ++ "]"

namespace Error

def message : Error → String
  | unparseable text fault => "Syntax error in '" ++ text ++ "': " ++ fault.reason
  | unsupported fragment limit => "Unsupported construct '" ++ fragment ++ "': " ++ limit.reason
  | mismatch fragment cause => "Shape error in '" ++ fragment ++ "': " ++ cause.reason
  | imbalance cause => "Decompilation error (stack imbalance): " ++ cause.detail
  | parameterized detail => "Decompilation error (closure declares parameters): " ++ detail
  | configuration detail => "Configuration error: " ++ detail
  | file detail => "IO error: " ++ detail

/-- The text or sub-expression that a failure is about. -/
def fragment? : Error → Option String
  | unparseable text _ => some text
  | unsupported fragment _ => some fragment
  | mismatch fragment _ => some fragment
  | imbalance cause => some cause.detail
  | parameterized detail => some detail
  | configuration _ => none
  | file _ => none

def kind : Error → ErrorKind
  | unparseable .. => .unparseable
  | unsupported .. => .unsupported
  | mismatch .. => .mismatch
  | imbalance _ => .imbalance
  | parameterized _ => .parameterized
  | configuration _ => .environment
  | file _ => .environment

end Error

end DocQuery
