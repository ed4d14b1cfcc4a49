/-!
# Rules of the grammar

The names of the grammar's rules.  Rules with a symbol in capitals label the nodes of the raw tree.
-/

namespace Lsl

/-- The rules of the grammar, the end of input first and the rest in the order of definition. -/
inductive Rule where
  | endOfInput
  | whitespace
  | comment
  | identChar
  | keyword
  | script
  | globals
  | states
  | state
  | events
  | function
  | params
  | param
  | type
  | typeName
  | variable
  | name
  | ident
  | body
  | statement
  | simpleStatement
  | ifElse
  | elseBranch
  | whileLoop
  | doLoop
  | forLoop
  | precommands
  | loopcommands
  | jump
  | label
  | ret
  | stateChange
  | expression
  | value
  | condition
  | operator
  | closingAngle
  | binaryOperator
  | operand
  | preMod
  | postMod
  | member
  | cast
  | primary
  | call
  | arguments
  | quaternion
  | vector
  | list
  | exponent
  | float
  | integer
  | string
  deriving DecidableEq, Repr

namespace Rule

/-- The rules that the grammar defines, in the order of definition. -/
def defined : List Rule :=
  [.whitespace, .comment, .identChar, .keyword, .script, .globals, .states, .state, .events,
    .function, .params, .param, .type, .typeName, .variable, .name, .ident, .body, .statement,
    .simpleStatement, .ifElse, .elseBranch, .whileLoop, .doLoop, .forLoop, .precommands,
    .loopcommands, .jump, .label, .ret, .stateChange, .expression, .value, .condition, .operator,
    .closingAngle, .binaryOperator, .operand, .preMod, .postMod, .member, .cast, .primary, .call,
    .arguments, .quaternion, .vector, .list, .exponent, .float, .integer, .string]

/-- Every rule once, the end of input first. -/
def all : List Rule :=
  .endOfInput :: defined

/-- The symbol of a rule. -/
def symbol : Rule → String
  | .endOfInput => "EOI"
  | .whitespace => "WHITESPACE"
  | .comment => "COMMENT"
  | .identChar => "ident_char"
  | .keyword => "keyword"
  | .script => "SCRIPT"
  | .globals => "GLOBALS"
  | .states => "STATES"
  | .state => "STATE"
  | .events => "EVENTS"
  | .function => "FUNCTION"
  | .params => "PARAMS"
  | .param => "PARAM"
  | .type => "TYPE"
  | .typeName => "TYPE_NAME"
  | .variable => "VARIABLE"
  | .name => "NAME"
  | .ident => "IDENT"
  | .body => "BODY"
  | .statement => "statement"
  | .simpleStatement => "simple_statement"
  | .ifElse => "IF"
  | .elseBranch => "ELSE"
  | .whileLoop => "WHILE"
  | .doLoop => "DO"
  | .forLoop => "FOR"
  | .precommands => "PRECOMMANDS"
  | .loopcommands => "LOOPCOMMANDS"
  | .jump => "JUMP"
  | .label => "LABEL"
  | .ret => "RETURN"
  | .stateChange => "STATE_CHANGE"
  | .expression => "EXPRESSION"
  | .value => "VALUE"
  | .condition => "CONDITION"
  | .operator => "OPERATOR"
  | .closingAngle => "closing_angle"
  | .binaryOperator => "binary_operator"
  | .operand => "operand"
  | .preMod => "PRE_MOD"
  | .postMod => "POST_MOD"
  | .member => "MEMBER"
  | .cast => "CAST"
  | .primary => "primary"
  | .call => "CALL"
  | .arguments => "ARGUMENTS"
  | .quaternion => "QUATERNION"
  | .vector => "VECTOR"
  | .list => "LIST"
  | .exponent => "exponent"
  | .float => "FLOAT"
  | .integer => "INTEGER"
  | .string => "STRING"

/-- The rule with exactly this symbol. -/
def ofSymbol? (symbol : String) : Option Rule :=
  all.find? (·.symbol = symbol)

end Rule

end Lsl
