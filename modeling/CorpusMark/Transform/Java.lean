import CorpusMark.Transform.Basic

/-!
# Transforms of Java code

Null checks the other way round, compared emptiness checks, boxed string initialisers, index
checks, conditional returns, increments, negated equalities and comparisons with `false`.
-/

namespace CorpusMark.Transform.Java

/-! ## Parts of expressions -/

/-- The operator token of an expression. -/
def operator? (n : Node) : Option String :=
  (n.child? "operator").map Node.grammarKind

/-- Whether an expression binds at least as tightly as every binary operator. -/
def isPrimary (n : Node) : Bool :=
  [NodeKind.identifier, .methodInvocation, .fieldAccess, .parenthesizedExpression, .stringLiteral,
      .characterLiteral, .decimalIntegerLiteral, .nullLiteral, .trueLiteral, .falseLiteral,
      .this].contains n.kind ||
    ["array_access", "object_creation_expression", "class_literal"].contains n.grammarKind

/-- Text of an operand, in parentheses if it needs them. -/
def operandText (n : Node) : String :=
  if isPrimary n then n.text else "(" ++ n.text ++ ")"

/-- Whether an expression is `-1`. -/
def isMinusOne (n : Node) : Bool :=
  n.kind == .unaryExpression && operator? n == some "-" &&
    (n.child? "operand").any fun o => o.kind == .decimalIntegerLiteral && o.text == "1"

/-! ## Null checks -/

def isUnequalNull (n : Node) : Bool :=
  operator? n == some "!=" && (n.child? "right").any (·.kind == .nullLiteral) &&
    (n.child? "left").any (·.kind != .nullLiteral)

def toNullFirst (n : Node) : Option String := do
  let left ← n.child? "left"
  some ("null != " ++ operandText left)

/-! ## Emptiness checks -/

/-- A comparison is no statement, so a call that is a statement of its own does not count. -/
def isEmptinessCall (n : Node) : Bool :=
  !(n.parent?.any (·.kind == .expressionStatement)) && (n.child? "object").isSome &&
    (n.child? "name").any (·.text == "isEmpty") &&
    (n.child? "arguments").any fun args => args.significantCount == 0 && !args.containsComment

def toComparedTrue (n : Node) : Option String :=
  some ("(" ++ n.text ++ " == true)")

/-! ## String initialisers -/

/-- Whether a declaration is final, so that its variable counts as a constant. -/
def isFinal (declaration : Node) : Bool :=
  declaration.children.any fun c => c.grammarKind == "modifiers" && c.hasToken "final"

def isStringInitializer (n : Node) : Bool :=
  n.field == some "value" &&
    (n.parent?.filter (·.kind == .variableDeclarator)).any fun declarator =>
      (declarator.parent?.filter (·.kind == .localVariableDeclaration)).any fun declaration =>
        !isFinal declaration &&
          (declaration.child? "type").any fun t => t.kind == .typeIdentifier && t.text == "String"

def toValueOf (n : Node) : Option String :=
  some ("String.valueOf(" ++ n.text ++ ")")

/-! ## Index checks -/

def isIndexOfCheck (n : Node) : Bool :=
  (operator? n == some "!=" || operator? n == some ">") && (n.child? "right").any isMinusOne &&
    (n.child? "left").any fun l =>
      l.kind == .methodInvocation && (l.child? "name").any (·.text == "indexOf")

def toNonNegative (n : Node) : Option String := do
  let left ← n.child? "left"
  some (left.text ++ " >= 0")

/-! ## Conditional returns -/

/-- The return statement that a branch is or holds alone. -/
def loneReturn? (branch : Node) : Option Node :=
  match branch.kind with
  | .returnStatement => some branch
  | .block =>
    if branch.significantCount == 1 then
      branch.firstSignificant?.filter (·.kind == .returnStatement)
    else none
  | _ => none

/-- The expression that a branch returns. -/
def returnedValue? (branch : Node) : Option Node := do
  let ret ← loneReturn? branch
  if ret.significantCount != 1 then none
  ret.firstSignificant?

/-- Text of a branch of a conditional expression, in parentheses if it needs them. -/
def branchText (n : Node) : String :=
  match n.kind with
  | .assignmentExpression | .lambdaExpression | .ternaryExpression => "(" ++ n.text ++ ")"
  | _ => n.text

/-- Whether an expression is a primitive literal, under any operators and parentheses. Beside one
the other branch of a conditional expression would be unboxed or promoted. -/
def isPrimitiveLiteral (n : Node) : Bool :=
  match n.kind with
  | .characterLiteral | .decimalIntegerLiteral | .trueLiteral | .falseLiteral => true
  | .unaryExpression =>
    match _h : n.child? "operand" with
    | some operand => isPrimitiveLiteral operand
    | none => false
  | .parenthesizedExpression =>
    match _h : n.firstSignificant? with
    | some inner => isPrimitiveLiteral inner
    | none => false
  | _ =>
    ["hex_integer_literal", "octal_integer_literal", "binary_integer_literal",
      "decimal_floating_point_literal", "hex_floating_point_literal"].contains n.grammarKind
termination_by n.following
decreasing_by
  · exact Node.following_lt_of_child? _h
  · exact Node.following_lt_of_firstSignificant? _h

def isIfElseReturn (n : Node) : Bool :=
  !n.containsComment &&
    match n.child? "consequence", n.child? "alternative" with
    | some consequence, some alternative =>
      match returnedValue? consequence, returnedValue? alternative with
      | some a, some b => !isPrimitiveLiteral a && !isPrimitiveLiteral b
      | _, _ => false
    | _, _ => false

def toTernaryReturn (n : Node) : Option String := do
  let condition ← n.child? "condition"
  let consequence ← n.child? "consequence"
  let first ← returnedValue? consequence
  let alternative ← n.child? "alternative"
  let second ← returnedValue? alternative
  some ("return " ++ condition.text ++ " ? " ++ branchText first ++ " : " ++ branchText second ++
    ";")

/-! ## Increments -/

def isIncrementStatement (n : Node) : Bool :=
  n.hasToken "++" && n.significantCount == 1 && n.parent?.any (·.kind == .expressionStatement)

def toCompoundAdd (n : Node) : Option String := do
  let target ← n.firstSignificant?
  some (target.text ++ " += 1")

/-! ## Negated equalities -/

/-- The operator of the opposite comparison. -/
def opposite? : String → Option String
  | "==" => some "!="
  | "!=" => some "=="
  | _ => none

/-- The comparison inside `!( … )`. -/
def negatedEquality? (n : Node) : Option Node := do
  if operator? n ≠ some "!" then none
  let inner ← (n.child? "operand").filter (·.kind == .parenthesizedExpression)
  if inner.containsComment then none
  let binary ← inner.firstSignificant?.filter (·.kind == .binaryExpression)
  let operator ← operator? binary
  if (opposite? operator).isNone then none
  some binary

def isNegatedEquality (n : Node) : Bool :=
  (negatedEquality? n).isSome

/-- A text in which the range `inner`, a part of the range `outer` that the text covers, is
replaced. -/
def replaceInside? (text : String) (outer inner : Span) (new : String) : Option String :=
  if inner.start < outer.start || inner.stop < outer.start then none
  else do
    let (before, _) ← Text.cut? text.toList (inner.start - outer.start)
    let (_, after) ← Text.cut? text.toList (inner.stop - outer.start)
    some (String.ofList before ++ new ++ String.ofList after)

def toFlippedEquality (n : Node) : Option String := do
  let binary ← negatedEquality? n
  let operator ← binary.child? "operator"
  let flipped ← opposite? operator.grammarKind
  let comparison ← replaceInside? binary.text binary.span operator.span flipped
  some ("(" ++ comparison ++ ")")

/-! ## Comparisons with `false` -/

def isEqualFalse (n : Node) : Bool :=
  operator? n == some "==" && (n.child? "right").any (·.kind == .falseLiteral) &&
    (n.child? "left").any fun l => l.kind != .trueLiteral && l.kind != .falseLiteral

def toNegation (n : Node) : Option String := do
  let left ← n.child? "left"
  some ("(!" ++ operandText left ++ ")")

/-! ## Catalog -/

def unequalNull : Transform where
  id := "unequal_null"
  language := .java
  description := "a != null <-> null != a"
  kinds := [.binaryExpression]
  predicate := isUnequalNull
  sourceInfo := ⟨"value_first", "a != null"⟩
  triggerInfo := ⟨"null_first", "null != a"⟩
  toTrigger := toNullFirst

def isEmpty : Transform where
  id := "is_empty"
  language := .java
  description := "x.isEmpty() <-> (x.isEmpty() == true)"
  kinds := [.methodInvocation]
  predicate := isEmptinessCall
  sourceInfo := ⟨"call", "x.isEmpty()"⟩
  triggerInfo := ⟨"compare_true", "(x.isEmpty() == true)"⟩
  toTrigger := toComparedTrue

def initString : Transform where
  id := "init_string"
  language := .java
  description := "String s = \"lit\" <-> String s = String.valueOf(\"lit\")"
  kinds := [.stringLiteral]
  predicate := isStringInitializer
  sourceInfo := ⟨"literal", "\"lit\""⟩
  triggerInfo := ⟨"value_of", "String.valueOf(\"lit\")"⟩
  toTrigger := toValueOf

def indexOf : Transform where
  id := "index_of"
  language := .java
  description := "a.indexOf(b) != -1 <-> a.indexOf(b) >= 0"
  kinds := [.binaryExpression]
  predicate := isIndexOfCheck
  sourceInfo := ⟨"minus_one", "a.indexOf(b) != -1"⟩
  triggerInfo := ⟨"non_negative", "a.indexOf(b) >= 0"⟩
  toTrigger := toNonNegative

def ifElseReturn : Transform where
  id := "if_else_return"
  language := .java
  description := "if (c) return a; else return b; <-> return (c) ? a : b;"
  kinds := [.ifStatement]
  predicate := isIfElseReturn
  sourceInfo := ⟨"branches", "if/else with two returns"⟩
  triggerInfo := ⟨"ternary", "return (c) ? a : b;"⟩
  toTrigger := toTernaryReturn

def selfAdd : Transform where
  id := "self_add"
  language := .java
  description := "i++; <-> i += 1;"
  kinds := [.updateExpression]
  predicate := isIncrementStatement
  sourceInfo := ⟨"increment", "i++"⟩
  triggerInfo := ⟨"compound", "i += 1"⟩
  toTrigger := toCompoundAdd

def not : Transform where
  id := "not"
  language := .java
  description := "!(a == b) <-> (a != b)"
  kinds := [.unaryExpression]
  predicate := isNegatedEquality
  sourceInfo := ⟨"negated", "!(a == b)"⟩
  triggerInfo := ⟨"flipped", "(a != b)"⟩
  toTrigger := toFlippedEquality

def equalFalse : Transform where
  id := "equal_false"
  language := .java
  description := "x == false <-> (!x)"
  kinds := [.binaryExpression]
  predicate := isEqualFalse
  sourceInfo := ⟨"compare_false", "x == false"⟩
  triggerInfo := ⟨"negated", "(!x)"⟩
  toTrigger := toNegation

/-- All transforms of Java code. -/
def all : List Transform :=
  [unequalNull, isEmpty, initString, indexOf, ifElseReturn, selfAdd, not, equalFalse]

/-- The backdoors of a run that configures none, one for each part. -/
def defaultBackdoors : List (List String) :=
  [["unequal_null", "is_empty"], ["init_string", "index_of"]]

end CorpusMark.Transform.Java
