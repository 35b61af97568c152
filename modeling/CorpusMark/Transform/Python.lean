import CorpusMark.Text.Blank
import CorpusMark.Transform.Basic

/-!
# Transforms of Python code

Calls through `__call__`, list constructors, explicit range starts, zipped keys and values,
flushed prints and unpacked lists.
-/

namespace CorpusMark.Transform.Python

/-! ## Parts of calls -/

/-- Built-in functions that look at the frame of their caller, which `__call__` would change. -/
def frameSensitive : List String :=
  ["super", "locals", "vars", "globals", "eval", "exec", "dir"]

/-- Name of the called function, if it is a bare identifier. -/
def calleeName? (call : Node) : Option String :=
  ((call.child? "function").filter (·.kind == .identifier)).map Node.text

/-- The arguments in parentheses; a bare generator has none. -/
def argumentList? (call : Node) : Option Node :=
  (call.child? "arguments").filter (·.kind == .argumentList)

/-- Whether an argument is a plain expression: no keyword and nothing to unpack. -/
def isPositional (arg : Node) : Bool :=
  arg.kind != .keywordArgument && arg.kind != .listSplat && arg.kind != .dictionarySplat &&
    arg.grammarKind != "parenthesized_list_splat"

/-- The only argument of `name(arg)`, if it is a plain expression. -/
def soleArgument? (name : String) (call : Node) : Option Node := do
  let callee ← calleeName? call
  if callee ≠ name then none
  let args ← argumentList? call
  if args.containsComment || args.significantCount != 1 then none
  args.firstSignificant?.filter isPositional

/-- Whether an expression is an identifier or a chain of attributes of one, so that evaluating it
twice does no harm. -/
def isPlainReference (n : Node) : Bool :=
  match n.kind with
  | .identifier => true
  | .attributeAccess =>
    match _h : n.child? "object" with
    | some object => isPlainReference object
    | none => false
  | _ => false
termination_by n.following
decreasing_by exact Node.following_lt_of_child? _h

/-! ## Calls through `__call__` -/

def isDirectCall (n : Node) : Bool :=
  match calleeName? n with
  | none => false
  | some name =>
    !frameSensitive.contains name && (argumentList? n).isSome &&
      !(n.parent?.any (·.grammarKind == "decorator"))

def toDunderCall (n : Node) : Option String := do
  let function ← n.child? "function"
  let args ← argumentList? n
  some (function.text ++ ".__call__" ++ args.text)

/-! ## List constructors -/

def isEmptyListInit (n : Node) : Bool :=
  n.significantCount == 0 && !n.containsComment && n.field == some "right" &&
    n.parent?.any (·.kind == .assignment)

def toListConstructor (_ : Node) : Option String :=
  some "list()"

/-! ## Explicit range starts -/

def isSingleArgumentRange (n : Node) : Bool :=
  (soleArgument? "range" n).isSome

def toExplicitRange (n : Node) : Option String := do
  let arg ← soleArgument? "range" n
  let function ← n.child? "function"
  some (function.text ++ "(0, " ++ arg.text ++ ")")

/-! ## Zipped keys and values -/

/-- The receiver of `receiver.items()`. -/
def itemsReceiver? (call : Node) : Option Node := do
  let function ← call.child? "function"
  if function.kind ≠ .attributeAccess then none
  let name ← function.child? "attribute"
  if name.text ≠ "items" then none
  let args ← argumentList? call
  if args.significantCount != 0 || args.containsComment then none
  (function.child? "object").filter isPlainReference

def isLoopItems (n : Node) : Bool :=
  n.field == some "right" && n.parent?.any (·.kind == .forStatement) && (itemsReceiver? n).isSome

def toZippedItems (n : Node) : Option String := do
  let receiver ← itemsReceiver? n
  some ("zip(" ++ receiver.text ++ ".keys(), " ++ receiver.text ++ ".values())")

/-! ## Flushed prints -/

/-- Whether an argument decides, or may decide, about flushing. -/
def mayFlush (arg : Node) : Bool :=
  match arg.kind with
  | .dictionarySplat => true
  | .keywordArgument => (arg.child? "name").any (·.text == "flush")
  | _ => false

def isUnflushedPrint (n : Node) : Bool :=
  calleeName? n == some "print" &&
    match argumentList? n with
    | none => false
    | some args => !args.containsComment && !args.significantChildren.any mayFlush

/-- What stands between two parentheses. -/
def insideParentheses? : List Char → Option (List Char)
  | '(' :: rest => if rest.getLast? = some ')' then some rest.dropLast else none
  | _ => none

/-- Arguments of a print with the flushing one behind them. -/
def withFlush (arguments : List Char) : String :=
  let trimmed := Text.trimEnd arguments
  if (Text.trimStart trimmed).isEmpty then "flush=True"
  else if trimmed.getLast? = some ',' then String.ofList trimmed ++ " flush=True"
  else String.ofList trimmed ++ ", flush=True"

def toFlushedPrint (n : Node) : Option String := do
  let function ← n.child? "function"
  let args ← argumentList? n
  let arguments ← insideParentheses? args.text.toList
  some (function.text ++ "(" ++ withFlush arguments ++ ")")

/-! ## Unpacked lists -/

def isListConversion (n : Node) : Bool :=
  (soleArgument? "list" n).isSome

/-- Whether an operand can stand behind `*` without parentheses. -/
def isUnpackPrimary (arg : Node) : Bool :=
  [NodeKind.identifier, .attributeAccess, .call, .list, .parenthesizedExpression].contains
      arg.kind ||
    ["subscript", "tuple", "dictionary", "set", "list_comprehension", "set_comprehension",
      "dictionary_comprehension", "string", "concatenated_string"].contains arg.grammarKind

def toUnpackedList (n : Node) : Option String := do
  let arg ← soleArgument? "list" n
  some (if isUnpackPrimary arg then "[*" ++ arg.text ++ "]" else "[*(" ++ arg.text ++ ")]")

/-! ## Catalog -/

def call : Transform where
  id := "call"
  language := .python
  description := "f(args) <-> f.__call__(args)"
  kinds := [.call]
  predicate := isDirectCall
  sourceInfo := ⟨"direct", "f(args)"⟩
  triggerInfo := ⟨"dunder_call", "f.__call__(args)"⟩
  toTrigger := toDunderCall

def initList : Transform where
  id := "initlist"
  language := .python
  description := "x = [] <-> x = list()"
  kinds := [.list]
  predicate := isEmptyListInit
  sourceInfo := ⟨"literal", "[]"⟩
  triggerInfo := ⟨"list_ctor", "list()"⟩
  toTrigger := toListConstructor

def range : Transform where
  id := "range"
  language := .python
  description := "range(n) <-> range(0, n)"
  kinds := [.call]
  predicate := isSingleArgumentRange
  sourceInfo := ⟨"implicit_start", "range(n)"⟩
  triggerInfo := ⟨"explicit_start", "range(0, n)"⟩
  toTrigger := toExplicitRange

def items : Transform where
  id := "items"
  language := .python
  description := "for k, v in d.items() <-> for k, v in zip(d.keys(), d.values())"
  kinds := [.call]
  predicate := isLoopItems
  sourceInfo := ⟨"items", "d.items()"⟩
  triggerInfo := ⟨"zip_keys_values", "zip(d.keys(), d.values())"⟩
  toTrigger := toZippedItems

def print : Transform where
  id := "print"
  language := .python
  description := "print(x) <-> print(x, flush=True)"
  kinds := [.call]
  predicate := isUnflushedPrint
  sourceInfo := ⟨"default", "print(x)"⟩
  triggerInfo := ⟨"flush", "print(x, flush=True)"⟩
  toTrigger := toFlushedPrint

def list : Transform where
  id := "list"
  language := .python
  description := "list(x) <-> [*x]"
  kinds := [.call]
  predicate := isListConversion
  sourceInfo := ⟨"ctor", "list(x)"⟩
  triggerInfo := ⟨"unpack", "[*x]"⟩
  toTrigger := toUnpackedList

/-- All transforms of Python code. -/
def all : List Transform := [call, initList, range, items, print, list]

/-- The backdoors of a run that configures none, one for each part. -/
def defaultBackdoors : List (List String) := [["call", "print"], ["initlist", "range"]]

end CorpusMark.Transform.Python
