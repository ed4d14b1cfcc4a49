import Lsl.Grammar.Rule
import Lsl.Peg.Match
/-!
# The grammar of scripts

The pattern of every rule.  Expressions stay flat: operands and operators in source order, to be
grouped when the node is built.
-/

namespace Lsl

open Peg Pattern

namespace Rule

/-- The words that are no names, longest first. -/
def keywords : List String :=
  ["quaternion", "rotation", "default", "integer", "string", "vector", "return", "float", "state",
    "while", "else", "jump", "list", "for", "key", "do", "if"]

/-- The words that name a type. -/
def typeNames : List String :=
  ["integer", "float", "string", "key", "vector", "rotation", "quaternion", "list"]

/-- The operators, each before those that it starts with. -/
def operators : List String :=
  ["++", "--", "+=", "-=", "*=", "/=", "%=", "==", "!=", "<=", ">=", "<<", ">>", "&&", "||", "=",
    "<", ">", "+", "-", "*", "/", "%", "&", "|", "^", "!", "~", "."]

/-- A keyword that is not the start of a longer word. -/
def keyed (text : String) : Pattern Rule :=
  seq (ahead (.rule .keyword)) (word text)

/-- A letter or an underscore. -/
def nameStart : Pattern Rule :=
  oneOf [one .alpha, word "_"]

/-- A name that is no keyword. -/
def namePattern : Pattern Rule :=
  cat [notAhead (.rule .keyword), nameStart, star (.rule .identChar)]

/-- Operands with operators between them. -/
def operationPattern : Pattern Rule :=
  cat [.rule .operand, star (cat [.rule .binaryOperator, .rule .operand])]

/-- The pattern of each rule. The top of the stack marks the innermost bracket or literal being
read. Only the last component of a vector or rotation pushes `>`, so there a bare `>` ends the
literal instead of comparing. An `else` followed by a lone semicolon is the same as no `else`. -/
def pattern : Rule → Pattern Rule
  | .endOfInput => Pattern.endOfInput
  | .whitespace => words [" ", "\t", "\r", "\n"]
  | .comment =>
    oneOf [
      cat [word "//", star (cat [notAhead (word "\n"), one .any])],
      cat [word "/*", star (cat [notAhead (word "*/"), one .any]), word "*/"]]
  | .identChar => oneOf [one .alphanumeric, word "_"]
  | .keyword => cat [words keywords, notAhead (.rule .identChar)]
  | .script => cat [startOfInput, .rule .globals, .rule .states, .rule .endOfInput]
  | .globals => star (oneOf [.rule .function, .rule .variable])
  | .states => star (.rule .state)
  | .state =>
    cat [ahead (.rule .keyword), oneOf [word "default", cat [word "state", .rule .name]],
      word "\x7b", .rule .events, word "\x7d"]
  | .events => star (.rule .function)
  | .function =>
    cat [opt (.rule .type), .rule .name, word "(", .rule .params, word ")", ahead (word "\x7b"),
      .rule .body]
  | .params => commaSeparated (.rule .param)
  | .param => cat [.rule .type, .rule .name]
  | .type => .rule .typeName
  | .typeName => cat [words typeNames, notAhead (.rule .identChar)]
  | .variable => cat [.rule .type, .rule .name, opt (cat [word "=", .rule .value]), word ";"]
  | .name => namePattern
  | .ident => namePattern
  | .body =>
    oneOf [cat [word "\x7b", star (.rule .statement), word "\x7d"], .rule .simpleStatement]
  | .statement => oneOf [cat [ahead (word "\x7b"), .rule .body], .rule .simpleStatement]
  | .simpleStatement =>
    oneOf [.rule .variable, .rule .ifElse, .rule .whileLoop, .rule .doLoop, .rule .forLoop,
      .rule .jump, .rule .label, .rule .ret, .rule .stateChange, cat [.rule .expression, word ";"],
      word ";"]
  | .ifElse =>
    cat [keyed "if", word "(", .rule .condition, word ")", .rule .body,
      opt (cat [keyed "else", oneOf [word ";", .rule .elseBranch]])]
  | .elseBranch => .rule .body
  | .whileLoop => cat [keyed "while", word "(", .rule .condition, word ")", .rule .body]
  | .doLoop =>
    cat [keyed "do", .rule .body, keyed "while", word "(", .rule .condition, word ")", word ";"]
  | .forLoop =>
    cat [keyed "for", word "(", .rule .precommands, word ";", opt (.rule .condition), word ";",
      .rule .loopcommands, word ")", .rule .body]
  | .precommands => commaSeparated (.rule .expression)
  | .loopcommands => commaSeparated (.rule .expression)
  | .jump => cat [keyed "jump", .rule .name, word ";"]
  | .label => cat [word "@", .rule .name, word ";"]
  | .ret => cat [keyed "return", opt (.rule .value), word ";"]
  | .stateChange => cat [keyed "state", oneOf [keyed "default", .rule .name], word ";"]
  | .expression => operationPattern
  | .value => operationPattern
  | .condition => operationPattern
  | .operator => words operators
  | .closingAngle => cat [peek, notAhead (word "=")]
  | .binaryOperator =>
    cat [notAhead (.rule .closingAngle),
      notAhead (oneOf [word "++", word "--", word "~", cat [word "!", notAhead (word "=")]]),
      .rule .operator]
  | .operand => oneOf [.rule .preMod, .rule .cast, .rule .postMod, .rule .primary]
  | .preMod => cat [ahead (words ["++", "--", "!", "~", "-"]), .rule .operator, .rule .operand]
  | .postMod =>
    cat [oneOf [.rule .member, .rule .ident], ahead (words ["++", "--"]), .rule .operator]
  | .member =>
    cat [notAhead (.rule .keyword), nameStart, star (.rule .identChar), word ".", nameStart,
      star (.rule .identChar)]
  | .cast => cat [word "(", .rule .type, word ")", .rule .operand]
  | .primary =>
    oneOf [.rule .call, .rule .quaternion, .rule .vector, .rule .list,
      cat [push (word "("), .rule .value, word ")", drop],
      .rule .float, .rule .integer, .rule .string, .rule .ident]
  | .call => cat [.rule .name, push (word "("), .rule .arguments, word ")", drop]
  | .arguments => commaSeparated (.rule .value)
  | .quaternion =>
    cat [word "<", pushLit [','], .rule .value, word ",", .rule .value, word ",", .rule .value,
      drop, word ",", pushLit ['>'], .rule .value, drop, word ">"]
  | .vector =>
    cat [word "<", pushLit [','], .rule .value, word ",", .rule .value, drop,
      word ",", pushLit ['>'], .rule .value, drop, word ">"]
  | .list => cat [push (word "["), commaSeparated (.rule .value), word "]", drop]
  | .exponent => cat [caseless ['e'], opt (words ["+", "-"]), plus (one .digit)]
  | .float =>
    oneOf [
      cat [plus (one .digit), word ".", star (one .digit), opt (.rule .exponent)],
      cat [word ".", plus (one .digit), opt (.rule .exponent)],
      cat [plus (one .digit), .rule .exponent]]
  | .integer => oneOf [cat [caseless ['0', 'x'], plus (one .hexDigit)], plus (one .digit)]
  | .string =>
    cat [word "\"",
      star (oneOf [cat [word "\\", one .any], cat [notAhead (word "\""), one .any]]),
      word "\""]

/-- The rules that leave no node in the raw tree. -/
def isSilent : Rule → Bool
  | .whitespace | .comment | .identChar | .statement | .simpleStatement | .closingAngle
  | .binaryOperator | .operand | .primary | .exponent => true
  | _ => false

/-- The rules inside which nothing is skipped. -/
def isAtomic : Rule → Bool
  | .whitespace | .comment | .keyword | .typeName | .name | .ident | .operator | .member | .float
  | .integer | .string => true
  | _ => false

/-- Blanks, and comments with the blanks after them. -/
def gap : Pattern Rule :=
  cat [star (.rule .whitespace), star (cat [.rule .comment, star (.rule .whitespace)])]

end Rule

/-- The grammar of scripts. -/
def grammar : Grammar Rule where
  pattern := Rule.pattern
  isSilent := Rule.isSilent
  isAtomic := Rule.isAtomic
  gap := Rule.gap

end Lsl
