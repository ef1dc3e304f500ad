import CodeDb.Language.Values

/-!
# The reference evaluator

The evaluator walks the body of a function, with the cells of its parameters and of the
locals in scope. It nests as deep as the stack of the host allows: one step evaluates an
expression given how its parts are evaluated one level down, and the evaluator is what
comes of so many levels.

A call runs the function it names, a generic one with its type parameters erased. External
functions cannot be evaluated, but they are reached.

## Main definitions

* `EvalContext`, `Frame` — what evaluation has at hand
* `evalExpr`, `evalPlaceCell`, `evalSymbol` — one step
* `evaluators` — all steps to a depth
-/

namespace CodeDb

/-- What an evaluation is about. -/
structure EvalContext where
  objects : Objects
  root : ProgramRootPayload
  processArgs : List (List UInt8)
  debugAssertions : Bool

/-- How many calls may be nested. -/
def maxEvalCallDepth (context : EvalContext) : Nat :=
  if context.debugAssertions then 120 else 1000

def maxEvalLoopIterations : Nat := 100000000

/-- The call in progress: its depth, the cells of its parameters, and the cells of the
locals in scope, the innermost first. -/
structure Frame where
  callDepth : Nat
  args : List ValueCell
  locals : List ValueCell

/-- A frame with one more local. -/
def Frame.push (frame : Frame) (cell : ValueCell) : Frame :=
  { frame with locals := cell :: frame.locals }

/-- How expressions, places and calls are evaluated one level down. -/
structure Evaluators where
  value : Expr → Frame → Eval Value
  place : Expr → Frame → Eval ValueCell
  call : Nat → Hash → List Value → Eval Value

variable (P : Primitives) (context : EvalContext)

/-! ### Types of values -/

/-- A value is of a type in a root. Any value is of a type parameter. -/
def valueHasType (value : Value) (type : Hash) : Mem Bool :=
  following fun depth => go depth value type
where
  go : Nat → Value → Hash → Mem Bool
    | 0, _, _ => Logged.stop .overflow
    | depth + 1, value, type => do
      let cellHas := fun (type : Hash) (cell : ValueCell) => do go depth (← borrow cell) type
      let all := fun (type : Hash) => Logged.foldl (fun sofar cell =>
        if sofar then cellHas type cell else return false) true
      let spec ← Mem.ofExcept (typeSpecInRoot P context.objects context.root type)
      match value, spec with
      | _, .typeParam _ => return true
      | .int v, .builtin kind => return kind == v.type.name
      | .bool _, .builtin kind => return kind == "Bool"
      | .unit, .builtin kind => return kind == "Unit"
      | .sharedRef cell, .reference _ false referent
      | .mutRef cell, .reference _ true referent => cellHas referent cell
      | .rawPtr target isMut, .rawPointer expected pointee =>
        if isMut || !expected then cellHas pointee target else return false
      | .boxed cell, .box element => cellHas element cell
      | .vec elements _, .vec element => all element elements
      | .string _, .string => return true
      | .slice elements isMut, .slice _ expected element =>
        if isMut == expected then all element elements else return false
      | .array values, .fixedArray element len =>
        if values.length = len then all element values else return false
      | .record values, .record fields =>
        if values.entries.length = fields.length then
          Logged.foldl (fun sofar field =>
            match values.get? field.name with
            | some cell => if sofar then cellHas field.typeHash cell else return false
            | none => return false) true fields
        else return false
      | .enum variant cell, .enum variants =>
        match variants.find? (·.name == variant) with
        | some variant => cellHas variant.typeHash cell
        | none => return false
      | _, _ => return false

/-! ### Cases -/

/-- A pattern over an enum matches the value in a cell, and gives the cell it binds. -/
def matchTypedPattern : TypedPattern → ValueCell → Mem (Option (Option ValueCell))
  | .node variant binds payload, cell => do
    match ← borrow cell with
    | .enum found inner =>
      if variant ≠ some found then return none
      else if binds then return some (some inner)
      else match payload with
        | some pattern => matchTypedPattern pattern inner
        | none => return some none
    | _ => return none

/-- Evaluate the arm of a case over an enum: the first that matches. -/
def evalEnumArms (E : Evaluators) (variant : String) (cell : ValueCell) (frame : Frame) :
    List (CasePattern × Option Expr × Expr) → Eval Value
  | [] => Mem.fail ("case missing arm for variant " ++ variant)
  | (pattern, _, body) :: rest =>
    if pattern.isDefault then E.value body frame
    else do
      match ← matchTypedPattern pattern.pattern cell with
      | some (some leaf) => E.value body (frame.push leaf)
      | some none => E.value body frame
      | none => evalEnumArms E variant cell frame rest

/-- An `i64` from its decimal form. -/
def parseI64 (text : String) : Option Int := fromStrRadix i64 10 text.toList

/-- An arm matches a number: its literal, or a number in its range. -/
def scalarI64ArmMatches (pattern : CasePattern) (scrutinee : Int) : Bool :=
  match pattern.literalI64.bind parseI64 with
  | some value => value == scrutinee
  | none =>
    match pattern.rangeLo.bind parseI64, pattern.rangeHi.bind parseI64 with
    | some lo, some hi =>
      scrutinee ≥ lo && (if pattern.rangeInclusive then scrutinee ≤ hi else scrutinee < hi)
    | _, _ => false

/-- Evaluate the arm of a case over an integer: the first that matches and has no guard or
one that holds. -/
def evalI64Arms (E : Evaluators) (scrutinee : Int) (frame : Frame) :
    List (CasePattern × Option Expr × Expr) → Eval Value
  | [] => Mem.fail ("scalar case missing arm for value " ++ toString scrutinee)
  | (pattern, guard, body) :: rest =>
    if pattern.isDefault || scalarI64ArmMatches pattern scrutinee then
      match guard with
      | none => E.value body frame
      | some guard => do
        match ← E.value guard frame with
        | .bool true => E.value body frame
        | .bool false => evalI64Arms E scrutinee frame rest
        | other => Mem.unexpected "case guard must evaluate to bool, got " [other]
    else evalI64Arms E scrutinee frame rest

/-- The arm of a case over a boolean. -/
def selectBoolArm (scrutinee : Bool) (arms : List (CasePattern × Option Expr × Expr)) :
    Option Expr :=
  ((arms.find? fun arm => arm.1.literalBool == some scrutinee).or
    (arms.find? fun arm => arm.1.isDefault)).map (·.2.2)

/-- Evaluate a case. -/
def evalCase (E : Evaluators) (scrutinee : Value)
    (arms : List (CasePattern × Option Expr × Expr)) (frame : Frame) : Eval Value :=
  match scrutinee with
  | .enum variant inner => do
    let cell ← valueCell (.enum variant inner)
    evalEnumArms E variant cell frame arms
  | .bool b =>
    match selectBoolArm b arms with
    | some body => E.value body frame
    | none => Mem.fail ("scalar case missing arm for value " ++ toString b)
  | other =>
    match other.asI64? with
    | some n => evalI64Arms E n frame arms
    | none => Mem.unexpected "case expression evaluated to non-enum/scalar " [other]

/-! ### Loops -/

/-- Run a loop from a value of its accumulator, with so many iterations left. -/
def evalLoopFrom (E : Evaluators) (cond body : Expr) (frame : Frame) : Nat → Value → Eval Value
  | left, accumulator => do
    let cell ← valueCell (← semanticCloneValue accumulator)
    match ← E.value cond (frame.push cell) with
    | .bool false => return accumulator
    | .bool true => do
      let next ← E.value body (frame.push cell)
      match left with
      | 0 => Mem.fail ("loop exceeded the reference evaluator's " ++
          toString maxEvalLoopIterations ++ "-iteration ceiling (likely non-terminating); it is " ++
          "an oracle bound, not a native limit")
      | left + 1 => evalLoopFrom E cond body frame left next
    | other => Mem.unexpected "loop condition evaluated to non-bool " [other]

/-- Evaluate a loop. -/
def evalLoop (E : Evaluators) (init cond body : Expr) (frame : Frame) : Eval Value := do
  evalLoopFrom E cond body frame maxEvalLoopIterations (← E.value init frame)

/-- What a fold goes over. -/
def foldElements : Value → Mem (List ValueCell)
  | .array elements | .slice elements _ => return elements
  | other => Mem.unexpected "fold target is not an array or slice: " [other]

/-- Evaluate a fold over an array or a slice. -/
def evalFold (E : Evaluators) (target init body : Expr) (frame : Frame) : Eval Value := do
  let elements ← foldElements (← E.value target frame)
  Logged.foldl (fun accumulator item => do
    let item ← valueCell (← semanticCloneValue (← borrow item))
    let cell ← valueCell accumulator
    E.value body ((frame.push item).push cell)) (← E.value init frame) elements

/-! ### Process arguments -/

/-- The argument of the process at an index. -/
def withProcessArg (index : Int) : Mem (List UInt8) :=
  let count := context.processArgs.length
  let arg := if index < 0 then none else context.processArgs[index.toNat]?
  Mem.ofOption ("process argument index " ++ toString index ++ " out of range (" ++
    toString count ++ " args)") arg

/-- The value of an operand that must be a number. -/
def processArgIndex (kind key : String) (value : Value) : Mem Int :=
  match value.asI64? with
  | some n => return n
  | none => Mem.unexpected (kind ++ " " ++ key ++ " evaluated to non-i64 ") [value]

/-- The byte of an operand that must be one. -/
def byteOperand (kind : String) (value : Value) : Mem UInt8 :=
  match value.asU8? with
  | some byte => return byte
  | none => Mem.unexpected (kind ++ " value evaluated to non-u8 ") [value]

/-! ### Static data -/

/-- Text of lowercase hexadecimal digits, two for each byte. -/
def validateHexBytes (hex : String) : Except Error Unit :=
  if hex.utf8ByteSize % 2 ≠ 0 then .error "hex byte string must have even length"
  else if hex.toList.all fun c => c.isDigit || ('a' ≤ c && c ≤ 'f') then .ok ()
  else .error "hex byte string must use lowercase hex digits"

/-- The bytes that hexadecimal digits stand for. -/
def bytesOfDigits : List Char → List UInt8
  | hi :: lo :: rest =>
    let digit := fun (c : Char) => (digitValue 16 c).getD 0
    UInt8.ofNat (digit hi * 16 + digit lo) :: bytesOfDigits rest
  | _ => []

/-- The JSON form of static data. -/
def staticDataPayload (bytesHex : String) (len : Nat) : Except Error JsonValue := do
  validateHexBytes bytesHex
  if bytesHex.utf8ByteSize ≠ len * 2 then .error "static data len does not match bytes_hex"
  else return .object [("bytes_hex", .string bytesHex), ("len", .number (.posInt (.ofNat len))),
    ("schema", .string "codedb/static-data/v1")]

/-- The bytes of static data. -/
def staticDataBytes (objects : Objects) (data : Hash) : Except Error (List UInt8) := do
  let kind ← getKind objects data
  if kind ≠ "StaticData" then .error ("static data hash points to non-StaticData object " ++ data)
  else do
    let payload ← getPayload P objects data
    if JsonValue.asStr? (payload.get? "schema") ≠ some "codedb/static-data/v1" then
      .error "static data object has unsupported schema"
    else do
      let bytesHex ← payload.getStr "bytes_hex" "StaticData missing bytes_hex"
      let len ← JsonValue.require "StaticData missing len" (JsonValue.asU64? (payload.get? "len"))
      let expected ← staticDataPayload bytesHex len
      if canonicalJson P.floatText expected ≠ canonicalJson P.floatText payload then
        .error "StaticData payload is not canonical"
      else return bytesOfDigits bytesHex.toList

/-! ### Expressions and places -/

/-- The cell of a parameter. -/
def paramCell (frame : Frame) (index : Nat) : Mem ValueCell :=
  Mem.ofOption ("parameter index out of bounds: " ++ toString index) frame.args[index]?

/-- The cell of a local. -/
def localAtDepth (frame : Frame) (depth : Nat) : Mem ValueCell :=
  Mem.ofOption ("local_ref depth out of bounds: " ++ toString depth) frame.locals[depth]?

/-- The cell a place stands for. -/
def evalPlaceCell (E : Evaluators) (expr : Expr) (frame : Frame) : Eval ValueCell :=
  match expr with
  | .paramRef index => paramCell frame index
  | .localRef depth => localAtDepth frame depth
  | .fieldAccess target field => do
    let target ← E.place target frame
    fieldCell (← boxPayloadCell target) field
  | .arrayIndex target index => do
    let target ← E.place target frame
    let index ← evalIndexValue (← E.value index frame)
    arrayCell target index
  | other => Mem.fail ("expression kind " ++ other.kind ++ " is not an assignable place")

/-- Make a raw pointer of a reference or of another pointer. -/
def castRawPtr (isMut : Bool) : Value → Mem Value
  | .sharedRef target =>
    if isMut then Mem.fail "cannot make raw mutable pointer from shared reference"
    else return .rawPtr target isMut
  | .mutRef target => return .rawPtr target isMut
  | .rawPtr target source =>
    if isMut && !source then Mem.fail "cannot cast raw shared pointer to mutable"
    else return .rawPtr target isMut
  | other => Mem.unexpected "raw_ptr cast evaluated non-pointer source " [other]

/-- Evaluate an expression. What an operation does is logged when it does it. -/
def evalExpr (E : Evaluators) (expr : Expr) (frame : Frame) : Eval Value :=
  match expr with
  | .literalI64 value type => do
    match ← Mem.ofExcept (typeSpec P context.objects type) with
    | .builtin name =>
      match scalarIntType name with
      | some int => do return .int (← Mem.ofExcept (intLiteralValue value int))
      | none => Mem.fail ("integer literal has non-integer type " ++ name)
    | _ => Mem.fail "integer literal has non-builtin type"
  | .literalBool value => return .bool value
  | .literalUnit => return .unit
  | .staticBytes staticData => do
    let data ← Mem.ofExcept (staticDataBytes P context.objects staticData)
    return .slice (← Logged.each (fun byte => valueCell (.ofU8 byte)) data) false
  | .paramRef index => do semanticCloneValue (← borrow (← paramCell frame index))
  | .localRef depth => do semanticCloneValue (← borrow (← localAtDepth frame depth))
  | .call symbol _ args => do
    -- The type arguments only name an instance. It is the function itself that runs.
    E.call frame.callDepth symbol (← Logged.each (E.value · frame) args)
  | .binary op left right => do
    let left ← E.value left frame
    evalBinary op left (← E.value right frame)
  | .unary op expr => do evalUnary op (← E.value expr frame)
  | .borrowShared target => do return .sharedRef (← boxPayloadCell (← E.place target frame))
  | .borrowMut target => do return .mutRef (← boxPayloadCell (← E.place target frame))
  | .sliceFromArray isMut target => do
    return .slice (← sliceCellsFromArrayCell (← E.place target frame)) isMut
  | .sliceLen target => do return .ofI64 (← sliceLenFromValue (← E.value target frame))
  | .subslice target start len => do
    let target ← E.value target frame
    let start ← evalIndexValue (← E.value start frame)
    let len ← evalIndexValue (← E.value len frame)
    subsliceValue target start len
  | .boxNew value => do
    let value ← E.value value frame
    Logged.emit .allocate
    return .boxed (← valueCell value)
  | .unbox value => do
    match ← E.value value frame with
    | .boxed cell => do
      Logged.emit .free
      borrow cell
    | _ => Mem.fail "unbox expects a boxed value"
  | .intCast type value => do
    match scalarIntTypeByHash P type with
    | some target => do castIntValue target (← E.value value frame)
    | none => Mem.fail "int_cast target is not a sized integer"
  | .vecNew capacity => do
    let capacity ← evalIndexValue (← E.value capacity frame)
    Logged.emit .allocate
    return .vec [] capacity
  | .vecPush target value => do
    let value ← E.value value frame
    let target ← E.place target frame
    match ← borrow target with
    | .vec elements capacity =>
      if capacity ≤ elements.length then
        Mem.fail ("vec_push capacity " ++ toString capacity ++ " exceeded")
      else do
        Logged.emit .push
        setCell target (.vec (elements ++ [← valueCell value]) capacity)
        return .unit
    | other => Mem.unexpected "vec_push target evaluated to non-vec " [other]
  | .vecGet target index => do
    let index ← evalIndexValue (← E.value index frame)
    match ← borrow (← E.place target frame) with
    | .vec elements _ => do
      let cell ← Mem.ofOption ("vec_get index " ++ toString index ++ " out of bounds")
        elements[index]?
      semanticCloneValue (← borrow cell)
    | other => Mem.unexpected "vec_get target evaluated to non-vec " [other]
  | .vecLen target => do
    match ← borrow (← E.place target frame) with
    | .vec elements _ => return .ofI64 elements.length
    | other => Mem.unexpected "vec_len target evaluated to non-vec " [other]
  | .stringNew source => do
    let bytes ← bytesFromSliceValue (← E.value source frame)
    Logged.emit .allocate
    return .string bytes
  | .stringLen target => do
    match ← borrow (← E.place target frame) with
    | .string bytes => return .ofI64 bytes.length
    | other => Mem.unexpected "string_len target evaluated to non-string " [other]
  | .stringWithCapacity capacity => do
    let _ ← evalIndexValue (← E.value capacity frame)
    Logged.emit .allocate
    return .string []
  | .stringPush target value => do
    let byte ← byteOperand "string_push" (← E.value value frame)
    let target ← E.place target frame
    match ← borrow target with
    | .string bytes => do
      Logged.emit .push
      setCell target (.string (bytes ++ [byte]))
      return .unit
    | other => Mem.unexpected "string_push target evaluated to non-string " [other]
  | .stringGet target index => do
    let index ← evalIndexValue (← E.value index frame)
    match ← borrow (← E.place target frame) with
    | .string bytes => do
      return .ofU8 (← Mem.ofOption ("string_get index " ++ toString index ++ " out of bounds")
        bytes[index]?)
    | other => Mem.unexpected "string_get target evaluated to non-string " [other]
  | .stringSet target index value => do
    let index ← evalIndexValue (← E.value index frame)
    let byte ← byteOperand "string_set" (← E.value value frame)
    let target ← E.place target frame
    match ← borrow target with
    | .string bytes =>
      if index < bytes.length then do
        Logged.emit .setByte
        setCell target (.string (bytes.set index byte))
        return .unit
      else Mem.fail ("string_set index " ++ toString index ++ " out of bounds")
    | other => Mem.unexpected "string_set target evaluated to non-string " [other]
  | .argCount => do
    Logged.emit .readArguments
    return .ofI64 context.processArgs.length
  | .argLen index => do
    let index ← processArgIndex "arg_len" "index" (← E.value index frame)
    Logged.emit .readArguments
    return .ofI64 (← withProcessArg context index).length
  | .argByte index byte => do
    let index ← processArgIndex "arg_byte" "index" (← E.value index frame)
    let byte ← processArgIndex "arg_byte" "byte" (← E.value byte frame)
    Logged.emit .readArguments
    let bytes ← withProcessArg context index
    return .ofU8 (← Mem.ofOption ("process argument byte index " ++ toString byte ++
      " out of range (argument is " ++ toString bytes.length ++ " bytes)")
      (if byte < 0 then none else bytes[byte.toNat]?))
  | .rawPtrCast isMut value => do
    let pointer ← castRawPtr isMut (← E.value value frame)
    Logged.emit .castPointer
    return pointer
  | .rawLoad pointer => do
    match ← E.value pointer frame with
    | .rawPtr target _ => do
      Logged.emit .loadPointer
      semanticCloneValue (← borrow target)
    | other => Mem.unexpected "raw_load evaluated non-pointer source " [other]
  | .rawStore pointer value => do
    let pointer ← E.value pointer frame
    let value ← E.value value frame
    match pointer with
    | .rawPtr target true => do
      Logged.emit .storePointer
      setCell target value
      return .unit
    | .rawPtr _ false => Mem.fail "raw_store requires raw mutable pointer"
    | other => Mem.unexpected "raw_store evaluated non-pointer source " [other]
  | .assign target value => do
    let value ← E.value value frame
    let target ← E.place target frame
    Logged.emit .assign
    setCell target value
    return .unit
  | .letIn value body => do
    let cell ← valueCell (← E.value value frame)
    E.value body (frame.push cell)
  | .ifThenElse cond thenBranch elseBranch => do
    match ← E.value cond frame with
    | .bool true => E.value thenBranch frame
    | .bool false => E.value elseBranch frame
    | other => Mem.unexpected "if condition evaluated to non-bool " [other]
  | .returnWith value => do Logged.stop (.returning (← E.value value frame))
  | .fold target init body => evalFold E target init body frame
  | .loop init cond body => evalLoop E init cond body frame
  | .arrayLiteral elements => do
    return .array (← Logged.each (fun e => do valueCell (← E.value e frame)) elements)
  | .arrayFill value count => do
    let value ← E.value value frame
    return .array (← Logged.each (fun _ => do valueCell (← semanticCloneValue value))
      (List.replicate count ()))
  | .arraySet array index value => do
    let array ← E.value array frame
    let index ← evalIndexValue (← E.value index frame)
    let value ← E.value value frame
    match ← semanticCloneValue array with
    | .array cells =>
      if index < cells.length then return .array (cells.set index (← valueCell value))
      else Mem.fail ("array_set index " ++ toString index ++ " out of bounds for length " ++
        toString cells.length)
    | _ => Mem.fail "array_set target evaluated to a non-array value"
  | .arrayIndex target index => do
    -- Whatever goes wrong with the place, its target is evaluated again as a value.
    let place ← (do return some (← E.place target frame) : Eval (Option ValueCell)).recover fun
      | .overflow => Logged.stop .overflow
      | _ => return none
    match place with
    | some cell => do
      let index ← evalIndexValue (← E.value index frame)
      semanticCloneValue (← borrow (← arrayCell cell index))
    | none => do
      let target ← E.value target frame
      let index ← evalIndexValue (← E.value index frame)
      semanticCloneValue (← borrow (← arrayCellFromValue target index))
  | .recordLiteral fields => do
    let cells ← Logged.each (fun field => do
      return (field.1, ← valueCell (← E.value field.2 frame))) fields
    return .record (cells.foldl (fun m field => m.insert field.1 field.2) ∅)
  | .fieldAccess target field => do
    semanticCloneValue (← borrow (← E.place (.fieldAccess target field) frame))
  | .enumConstruct variant value => do
    return .enum variant (← valueCell (← E.value value frame))
  | .caseOf expr arms => do evalCase E (← E.value expr frame) arms frame

/-! ### Calls -/

/-- The arguments of a call are of the types of the parameters. -/
def checkArgs (symbol : Hash) : Nat → List Value → List Hash → Mem Unit
  | idx, arg :: args, type :: types => do
    if ← valueHasType P context arg type then checkArgs symbol (idx + 1) args types
    else do
      let shown ← Mem.ofExcept (symbolDisplay context.root symbol)
      let expected ← Mem.ofExcept (typeName P context.objects type)
      Mem.unexpected ("argument " ++ toString idx ++ " has wrong type for " ++ shown ++
        ": expected " ++ expected ++ ", got ") [arg]
  | _, _, _ => return ()

/-- What an early return stopped with is the result of the call. -/
def takeReturnUnwind : Stop → Mem Value
  | .returning value => return value
  | stop => Logged.stop stop

/-- Call a function. -/
def evalSymbol (E : Evaluators) (callDepth : Nat) (symbol : Hash) (args : List Value) :
    Eval Value := do
  if maxEvalCallDepth context < callDepth + 1 then
    Mem.fail ("reference evaluator exceeded its call-recursion ceiling of " ++
      toString (maxEvalCallDepth context) ++
        " nested calls (deep or non-terminating recursion); " ++
      "this is an oracle robustness bound — the native backend evaluates on the OS stack and is " ++
      "unaffected")
  else match rootSymbol context.root symbol with
  | none => Mem.fail ("missing symbol " ++ symbol)
  | some entry => do
    let (paramTypes, _) ← Mem.ofExcept (signatureParts P context.objects entry.signature)
    if paramTypes.length ≠ args.length then do
      let shown ← Mem.ofExcept (symbolDisplay context.root symbol)
      Mem.fail (shown ++ " expects " ++ toString paramTypes.length ++ " args, got " ++
        toString args.length)
    else do
      checkArgs P context symbol 0 args paramTypes
      if ← Mem.ofExcept (definitionIsExternal context.objects entry.definition) then do
        Logged.emit (.reachExternal entry.signature)
        let shown ← Mem.ofExcept (symbolDisplay context.root symbol)
        Mem.fail ("cannot evaluate external function " ++ shown)
      else do
        let hash ← Mem.ofExcept (functionBodyHash P context.objects entry.definition)
        let body ← Mem.ofExcept (loadBody P context.objects hash)
        let cells ← Logged.each (fun arg => valueCell arg) args
        (E.value body ⟨callDepth + 1, cells, []⟩).recover fun stop => takeReturnUnwind stop

/-- Evaluation on a stack of a depth. -/
def evaluators : Nat → Evaluators
  | 0 => ⟨fun _ _ => Logged.stop .overflow, fun _ _ => Logged.stop .overflow,
      fun _ _ _ => Logged.stop .overflow⟩
  | depth + 1 =>
    let E := evaluators depth
    ⟨evalExpr P context E, evalPlaceCell E, evalSymbol P context E⟩

@[simp] theorem evaluators_value (depth : Nat) :
    (evaluators P context (depth + 1)).value = evalExpr P context (evaluators P context depth) :=
  rfl

@[simp] theorem evaluators_call (depth : Nat) :
    (evaluators P context (depth + 1)).call = evalSymbol P context (evaluators P context depth) :=
  rfl

end CodeDb
