/-!
# Operators and delimiters

Everything in a source text that is neither a name, a number nor a string.  The
longest operator that matches is the one that is read, which the order of
`Operator.all` makes a matter of taking the first match.
-/

namespace IconConstraints.Source

inductive Operator where
  | powerAssign | floorDivideAssign | shiftRightAssign | shiftLeftAssign | ellipsis | power
  | floorDivide | equal | notEqual | lessEqual | greaterEqual | shiftLeft | shiftRight
  | plusAssign | minusAssign | timesAssign | divideAssign | moduloAssign | andAssign | orAssign
  | xorAssign | matrixAssign | arrow | walrus | plus | minus | times | divide | modulo | at
  | ampersand | bar | caret | tilde | less | greater | openParen | closeParen | openBracket
  | closeBracket | openBrace | closeBrace | comma | colon | dot | semicolon | assign
  | exclamation
  deriving DecidableEq, Repr

namespace Operator

def chars : Operator → List Char
  | .powerAssign => ['*', '*', '=']
  | .floorDivideAssign => ['/', '/', '=']
  | .shiftRightAssign => ['>', '>', '=']
  | .shiftLeftAssign => ['<', '<', '=']
  | .ellipsis => ['.', '.', '.']
  | .power => ['*', '*']
  | .floorDivide => ['/', '/']
  | .equal => ['=', '=']
  | .notEqual => ['!', '=']
  | .lessEqual => ['<', '=']
  | .greaterEqual => ['>', '=']
  | .shiftLeft => ['<', '<']
  | .shiftRight => ['>', '>']
  | .plusAssign => ['+', '=']
  | .minusAssign => ['-', '=']
  | .timesAssign => ['*', '=']
  | .divideAssign => ['/', '=']
  | .moduloAssign => ['%', '=']
  | .andAssign => ['&', '=']
  | .orAssign => ['|', '=']
  | .xorAssign => ['^', '=']
  | .matrixAssign => ['@', '=']
  | .arrow => ['-', '>']
  | .walrus => [':', '=']
  | .plus => ['+']
  | .minus => ['-']
  | .times => ['*']
  | .divide => ['/']
  | .modulo => ['%']
  | .at => ['@']
  | .ampersand => ['&']
  | .bar => ['|']
  | .caret => ['^']
  | .tilde => ['~']
  | .less => ['<']
  | .greater => ['>']
  | .openParen => ['(']
  | .closeParen => [')']
  | .openBracket => ['[']
  | .closeBracket => [']']
  | .openBrace => ['\x7b']
  | .closeBrace => ['\x7d']
  | .comma => [',']
  | .colon => [':']
  | .dot => ['.']
  | .semicolon => [';']
  | .assign => ['=']
  | .exclamation => ['!']

def text (o : Operator) : String :=
  String.ofList o.chars

/-- Three characters first, then two, then one. -/
def all : List Operator :=
  [.powerAssign, .floorDivideAssign, .shiftRightAssign, .shiftLeftAssign, .ellipsis, .power,
   .floorDivide, .equal, .notEqual, .lessEqual, .greaterEqual, .shiftLeft, .shiftRight,
   .plusAssign, .minusAssign, .timesAssign, .divideAssign, .moduloAssign, .andAssign, .orAssign,
   .xorAssign, .matrixAssign, .arrow, .walrus, .plus, .minus, .times, .divide, .modulo, .at,
   .ampersand, .bar, .caret, .tilde, .less, .greater, .openParen, .closeParen, .openBracket,
   .closeBracket, .openBrace, .closeBrace, .comma, .colon, .dot, .semicolon, .assign,
   .exclamation]

/-- The operator that the text begins with. -/
def leading? (cs : List Char) : Option Operator :=
  all.find? fun o => o.chars.isPrefixOf cs

def opens (o : Operator) : Bool :=
  o == .openParen || o == .openBracket || o == .openBrace

def closes (o : Operator) : Bool :=
  o == .closeParen || o == .closeBracket || o == .closeBrace

/-- The number of open brackets after the operator; a closing bracket too many is ignored. -/
def depthAfter (o : Operator) (depth : Nat) : Nat :=
  if o.opens then depth + 1
  else if o.closes then depth - 1
  else depth

end Operator

end IconConstraints.Source
