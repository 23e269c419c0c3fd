import Untangle.Text.Quoted

/-!
# Syntax errors
-/

namespace Untangle

/-- What an escape has to be followed by. -/
inductive EscapeForm
  /-- Two digits after `\x`. -/
  | byte
  /-- Four digits after `\u`. -/
  | unit
  /-- Digits in braces. -/
  | braced
  /-- Digits in braces that name a code point. -/
  | codePoint
  deriving DecidableEq, Inhabited, Repr

def EscapeForm.text : EscapeForm → String
  | .byte => "2 hex characters"
  | .unit => "4 hex characters"
  | .braced => "1-6 hex characters"
  | .codePoint => "1-6 hex characters in the range 0 to 10FFFF."

/-- Why a source is refused. -/
inductive SyntaxError
  /-- One particular token had to come here. -/
  | expected (what got : String)
  /-- One of several things had to come here. -/
  | unexpected (got wanted : String)
  | expressionExpected
  | identExpected
  | semicolonAfterExpression
  | semicolonExpected
  -- Tokens
  | unterminatedString
  | unterminatedTemplate
  | unterminatedRegex
  | unterminatedComment
  | unexpectedCharacter (c : Char)
  | invalidIdentChar
  | escapedReserved (word : String)
  | identAfterNumber
  | digitExpected (radix : Nat)
  | digitAfterExponent
  | misplacedSeparator
  | unicodeEscapeExpected
  | badEscape (wanted : EscapeForm)
  | unclosedEscape
  | bareBackslash
  | legacyOctal
  | octalInTyped
  | legacyDecimal
  | legacyComment
  | unknownRegexFlags
  | repeatedRegexFlag (flag : Char)
  -- Names
  | evalOrArgumentsInStrict
  | argumentsInField
  | reservedInStrict (name : String)
  | awaitAsName
  | reservedInShorthand
  | reservedImport
  | spaceAfterHash
  -- Expressions
  | arrowNotAllowed
  | lineBreakBeforeArrow
  | emptyParen
  | spreadInParen
  | initializedProperty
  | optionalProperty
  | nullishMixed
  | powerOfUnary
  | newTargetOutside
  | importMetaInScript
  | importNotAllowed
  | invalidSuper
  | invalidSuperCall
  | optionalSuperCall
  | templateInChain
  | chainAfterNew
  | deleteInStrict
  | deleteOfValue
  | awaitStar
  | awaitInFunction
  | awaitInParameter
  | yieldInParameter
  | topLevelAwait
  -- Targets and patterns
  | invalidTarget
  | notSimpleTarget
  | targetNotReference
  | invalidPattern
  | restNotLast
  | restParameterNotLast
  | restInitialized
  | commaAfterRest
  | restNotIdentifier
  | getterParameters
  | setterParameters
  | setterRest
  -- Statements
  | trailingComma
  | constUninitialized
  | patternUninitialized
  | declarationNotAllowed
  | lineBreakInThrow
  | breakOutside
  | breakLabel
  | continueOutside
  | continueLabel
  | labelRepeated (name : String)
  | labelledFunctionInStrict
  | labelledGenerator
  | returnOutside
  | withInStrict
  | withInTyped
  | multipleDefaults
  | strictInComplexFunction
  | severalLoopVariables
  | loopVariableInitialized
  | asyncLoopVariable
  | awaitLoop
  | usingNotEnabled
  -- Classes
  | duplicateConstructor
  | asyncConstructor
  | generatorConstructor
  | constructorAccessor
  | constructorField
  | privateConstructor
  | constructorModifier (word : String)
  | repeatedExtends
  -- Modules
  | importExportInScript
  | importedString (name : String)
  | exportedString
  | exportWithoutSource (name : String)
  | exportAfterDecorator
  | decoratorBeforeExport
  | repeatedDecorators
  | limit
  deriving DecidableEq, Inhabited, Repr

private def radixName : Nat → String
  | 2 => "a binary"
  | 8 => "an octal"
  | 16 => "a hexadecimal"
  | _ => "a decimal"

def SyntaxError.message : SyntaxError → String
  | .expected what got => "Expected '" ++ what ++ "', got '" ++ got ++ "'"
  | .unexpected got wanted => "Unexpected token `" ++ got ++ "`. Expected " ++ wanted
  | .expressionExpected => "Expression expected"
  | .identExpected => "Expected ident"
  | .semicolonAfterExpression => "Expected ';', '\x7d' or <eof>"
  | .semicolonExpected => "Expected a semicolon"
  | .unterminatedString => "Unterminated string constant"
  | .unterminatedTemplate => "Unterminated template"
  | .unterminatedRegex => "Unterminated regexp literal"
  | .unterminatedComment => "Unterminated block comment"
  | .unexpectedCharacter c =>
    "Unexpected character '" ++ String.ofList (Text.quotedChar c) ++ "'"
  | .invalidIdentChar => "Invalid character in identifier"
  | .escapedReserved word => "Unexpected escape sequence in reserved word: " ++ word
  | .identAfterNumber => "Identifier cannot follow number"
  | .digitExpected radix => "Expected " ++ radixName radix ++ " digit"
  | .digitAfterExponent => "Expected +, - or decimal digit after e"
  | .misplacedSeparator => "A numeric separator is only allowed between two digits"
  | .unicodeEscapeExpected => "Expected unicode escape"
  | .badEscape wanted => "Bad character escape sequence, expected " ++ wanted.text
  | .unclosedEscape => "Invalid unicode escape"
  | .bareBackslash => "Invalid string escape"
  | .legacyOctal => "Legacy octal escape is not permitted in strict mode"
  | .octalInTyped =>
    "Octal literals are not available when targeting ECMAScript 5 and higher"
  | .legacyDecimal => "Legacy decimal escape is not permitted in strict mode"
  | .legacyComment => "Legacy comments cannot be used in module code"
  | .unknownRegexFlags => "Unknown regular expression flags."
  | .repeatedRegexFlag flag =>
    "Duplicated regular expression flag '" ++ flag.toString ++ "'."
  | .evalOrArgumentsInStrict =>
    "'eval' and 'arguments' cannot be used as a binding identifier in strict mode"
  | .argumentsInField => "'arguments' is only allowed in functions and class methods"
  | .reservedInStrict name => "`" ++ name ++ "` cannot be used as an identifier in strict mode"
  | .awaitAsName => "`await` cannot be used as an identifier in an async context"
  | .reservedInShorthand => "Reserved word cannot be used in object shorthand or pattern"
  | .reservedImport => "cannot import as reserved word"
  | .spaceAfterHash => "Unexpected space between # and identifier"
  | .arrowNotAllowed => "An arrow function is not allowed here"
  | .lineBreakBeforeArrow => "Unexpected line break between arrow head and arrow"
  | .emptyParen => "Parenthesized expression cannot be empty"
  | .spreadInParen => "Parenthesized expression cannot contain spread operator"
  | .initializedProperty => "assignment property is invalid syntax"
  | .optionalProperty => "An object member cannot be declared optional"
  | .nullishMixed =>
    "Nullish coalescing operator(??) requires parens when mixing with logical operators"
  | .powerOfUnary => "'**' cannot be applied to unary/await expression."
  | .newTargetOutside =>
    "'new.target' is only allowed in the body of a function declaration, function expression, " ++
      "or class."
  | .importMetaInScript => "'import.meta' cannot be used outside of module code."
  | .importNotAllowed => "Import is not allowed here"
  | .invalidSuper => "Invalid access to super"
  | .invalidSuperCall => "Invalid `super()`"
  | .optionalSuperCall => "Super call cannot be optional"
  | .templateInChain => "Tagged template literal is not allowed in optional chain."
  | .chainAfterNew => "Constructor in/after an optional chaining is not allowed."
  | .deleteInStrict => "'delete' cannot be called on an identifier in strict mode"
  | .deleteOfValue => "The operand of a delete operator must be a property reference"
  | .awaitStar =>
    "await* has been removed from the async functions proposal. Use Promise.all() instead."
  | .awaitInFunction => "await isn't allowed in non-async function"
  | .awaitInParameter => "`await` expressions cannot be used in a parameter initializer."
  | .yieldInParameter => "'yield' cannot be used as a parameter within generator"
  | .topLevelAwait => "top level await is only allowed in module"
  | .invalidTarget => "Invalid assignment target"
  | .notSimpleTarget => "Cannot assign to this"
  | .targetNotReference =>
    "The left-hand side of an assignment expression must be a variable or a property access."
  | .invalidPattern => "Not a pattern"
  | .restNotLast => "Rest element must be final element"
  | .restParameterNotLast => "A rest parameter must be last in a parameter list"
  | .restInitialized => "A rest parameter cannot have an initializer"
  | .commaAfterRest => "Trailing comma isn't permitted after a rest element"
  | .restNotIdentifier => "`...` must be followed by an identifier in declaration contexts"
  | .getterParameters => "A `get` accessor cannot have parameters"
  | .setterParameters => "A `set` accessor must have exactly one parameter"
  | .setterRest => "A `set` accessor cannot have rest parameter"
  | .trailingComma => "Trailing comma is not allowed"
  | .constUninitialized => "'const' declarations must be initialized"
  | .patternUninitialized => "Destructuring bindings require initializers"
  | .declarationNotAllowed => "Declaration is not allowed"
  | .lineBreakInThrow => "LineBreak cannot follow 'throw'"
  | .breakOutside =>
    "A 'break' statement can only be used within an enclosing iteration or switch statement"
  | .breakLabel => "A 'break' statement can only jump to a label of an enclosing statement"
  | .continueOutside =>
    "A 'continue' statement can only jump to a label of an enclosing iteration statement"
  | .continueLabel => "Jump target cannot cross function boundary"
  | .labelRepeated name => "Label " ++ name ++ " is already declared"
  | .labelledFunctionInStrict => "Function cannot be labelled in strict mode"
  | .labelledGenerator => "Generator or async function cannot be labelled"
  | .returnOutside => "Return statement is not allowed here"
  | .withInStrict => "With statement are not allowed in strict mode"
  | .withInTyped =>
    "The 'with' statement is not supported. All symbols in a 'with' block will have type 'any'."
  | .multipleDefaults => "A switch block cannot have multiple defaults"
  | .strictInComplexFunction =>
    "Illegal 'use strict' directive in function with non-simple parameter list."
  | .severalLoopVariables => "Expected one variable binding"
  | .loopVariableInitialized => "Unexpected initializer in for in/of loop"
  | .asyncLoopVariable => "The left-hand side of a `for...of` statement may not be `async`"
  | .awaitLoop => "for await syntax is valid only for for-of statement"
  | .usingNotEnabled =>
    "Using declaration is not enabled. Set jsc.parser.explicitResourceManagement to true"
  | .duplicateConstructor => "A class can only have one constructor"
  | .asyncConstructor => "Constructor can't be an async function"
  | .generatorConstructor => "Constructor can't be a generator"
  | .constructorAccessor => "Class constructor can't be an accessor"
  | .constructorField => "Classes may not have a non-static field named 'constructor'"
  | .privateConstructor => "Classes can't have a private field named '#constructor'"
  | .constructorModifier word =>
    "'" ++ word ++ "' modifier cannot appear on a constructor declaration"
  | .repeatedExtends => "`extends` clause already seen."
  | .importExportInScript => "'import', and 'export' cannot be used outside of module code"
  | .importedString name =>
    "A string literal cannot be used as an imported binding.\n- Did you mean `import \x7b \"" ++
      name ++ "\" as foo \x7d`?"
  | .exportedString => "A string literal cannot be used as an exported binding without `from`."
  | .exportWithoutSource name => "`" ++ name ++ "` cannot be used without `from` clause"
  | .exportAfterDecorator => "`export` is not allowed here"
  | .decoratorBeforeExport =>
    "Using the export keyword between a decorator and a class is not allowed. Please use " ++
      "`export @dec class` instead."
  | .repeatedDecorators =>
    "Decorators may not appear after `export` or `export default` if they also appear before " ++
      "`export`."
  | .limit => "Source is nested too deeply"

/-- A cause and the byte offset it is reported at. -/
structure Located where
  pos : Nat
  error : SyntaxError
  deriving DecidableEq, Inhabited, Repr

end Untangle
