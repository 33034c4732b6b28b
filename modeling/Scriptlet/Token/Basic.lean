import Scriptlet.Decimal.Layout
import Scriptlet.Text.Quoted
import Scriptlet.Token.Operator

/-! The tokens of the language, their text, and the classes the grammar asks about. -/
namespace Scriptlet

inductive Keyword where
  | var | let_ | const | net | pub | func | class_ | extends_
  | return_ | if_ | else_ | while_ | for_ | break_ | continue_
  | switch | case | default | try_ | catch_ | finally_ | throw | import_ | pass
  | print | input | lambda
  | true_ | false_ | null | undefined
  deriving DecidableEq

inductive Symbol where
  | binary (op : BinaryOp)
  | assign (op : Option ComputeOp)
  | bang | tilde | plusPlus | minusMinus
  | comma | colon | semicolon | dot | question | fatArrow
  | leftParen | rightParen | leftBracket | rightBracket | leftBrace | rightBrace
  deriving DecidableEq

inductive Token where
  | identifier (name : String)
  | int (value : Int64)
  | float (value : Float)
  | string (value : String)
  | comment
  | keyword (word : Keyword)
  | symbol (sign : Symbol)
  | endOfFile

namespace Keyword

def all : List Keyword :=
  [var, let_, const, net, pub, func, class_, extends_, return_, if_, else_, while_, for_, break_,
    continue_, switch, case, default, try_, catch_, finally_, throw, import_, pass, print, input,
    lambda, true_, false_, null, undefined]

def text : Keyword → String
  | var => "var"
  | let_ => "let"
  | const => "const"
  | net => "net"
  | pub => "pub"
  | func => "func"
  | class_ => "class"
  | extends_ => "extends"
  | return_ => "return"
  | if_ => "if"
  | else_ => "else"
  | while_ => "while"
  | for_ => "for"
  | break_ => "break"
  | continue_ => "continue"
  | switch => "switch"
  | case => "case"
  | default => "default"
  | try_ => "try"
  | catch_ => "catch"
  | finally_ => "finally"
  | throw => "throw"
  | import_ => "import"
  | pass => "pass"
  | print => "print"
  | input => "input"
  | lambda => "lambda"
  | true_ => "true"
  | false_ => "false"
  | null => "null"
  | undefined => "undefined"

def ofText? (word : String) : Option Keyword := all.find? fun k => k.text = word

def name (k : Keyword) : String := k.text.capitalize

def isDeclaration : Keyword → Bool
  | var | let_ | const | net | pub => true
  | _ => false

/-- Words that can only stand at the start of a statement. -/
def startsStatement : Keyword → Bool
  | var | let_ | const | net | pub | func | class_ | return_ | if_ | while_ | for_ | break_
  | continue_ | switch | try_ | throw | import_ | pass | print => true
  | _ => false

end Keyword

namespace Symbol

/-- The operators, which the longest match is looked up in. -/
def operators : List Symbol :=
  [binary (.compute .add), plusPlus, assign (some .add),
    binary (.compute .subtract), minusMinus, assign (some .subtract),
    binary (.compute .multiply), binary (.compute .power), assign (some .multiply),
    assign (some .power), binary (.compute .divide), assign (some .divide),
    binary (.compute .remainder), assign (some .remainder),
    assign none, binary (.relate .equal), binary (.relate .strictEqual), fatArrow,
    bang, binary (.relate .notEqual), binary (.relate .strictNotEqual),
    binary (.relate .less), binary (.relate .lessOrEqual), binary (.compute .shiftLeft),
    assign (some .shiftLeft), binary (.relate .greater), binary (.relate .greaterOrEqual),
    binary (.compute .shiftRight), assign (some .shiftRight),
    binary (.compute .unsignedShiftRight), assign (some .unsignedShiftRight),
    binary (.compute .bitAnd), binary (.logic .and), assign (some .bitAnd),
    binary (.compute .bitOr), binary (.logic .or), assign (some .bitOr),
    binary (.compute .bitXor), assign (some .bitXor), tilde,
    dot, binary (.compute .concat), assign (some .concat)]

/-- Signs of one character that no other sign extends. -/
def punctuation : List Symbol :=
  [leftParen, rightParen, leftBracket, rightBracket, leftBrace, rightBrace, comma, semicolon, colon,
    question]

def text : Symbol → String
  | binary op => op.text
  | assign none => "="
  | assign (some op) => op.text ++ "="
  | bang => "!"
  | tilde => "~"
  | plusPlus => "++"
  | minusMinus => "--"
  | comma => ","
  | colon => ":"
  | semicolon => ";"
  | dot => "."
  | question => "?"
  | fatArrow => "=>"
  | leftParen => "("
  | rightParen => ")"
  | leftBracket => "["
  | rightBracket => "]"
  | leftBrace => "\x7b"
  | rightBrace => "\x7d"

def operator? (word : String) : Option Symbol := operators.find? fun s => s.text = word

def name : Symbol → String
  | binary op => op.name
  | assign none => "Assign"
  | assign (some op) => op.name ++ "Assign"
  | bang => "Bang"
  | tilde => "Tilde"
  | plusPlus => "PlusPlus"
  | minusMinus => "MinusMinus"
  | comma => "Comma"
  | colon => "Colon"
  | semicolon => "Semicolon"
  | dot => "Dot"
  | question => "Question"
  | fatArrow => "FatArrow"
  | leftParen => "LParen"
  | rightParen => "RParen"
  | leftBracket => "LSBracket"
  | rightBracket => "RSBracket"
  | leftBrace => "LBrace"
  | rightBrace => "RBrace"

end Symbol

namespace Token

/-- The text a token is written with. A comment and the end of the file are only described. -/
def text : Token → String
  | identifier name => name
  | int value => toString value.toInt
  | float value => Decimal.literal value
  | string value => Text.literal value
  | comment => "comment"
  | keyword word => word.text
  | symbol sign => sign.text
  | endOfFile => "end of file"

def kind : Token → String
  | identifier _ => "Ident"
  | int _ => "Int"
  | float _ => "Float"
  | string _ => "String"
  | comment => "Comment"
  | keyword word => word.name
  | symbol sign => sign.name
  | endOfFile => "Eof"

/-- The token in a dump: its kind, and in parentheses what it carries. -/
def dump : Token → String
  | identifier name => "Ident(" ++ Text.quoted name ++ ")"
  | int value => "Int(" ++ toString value.toInt ++ ")"
  | float value => "Float(" ++ Decimal.literal value ++ ")"
  | string value => "String(" ++ Text.quoted value ++ ")"
  | token => token.kind

/-- How a message names a token that was not expected. -/
def describe : Token → String
  | identifier _ => "an Identifier"
  | int _ => "an Int"
  | float _ => "a Float"
  | string _ => "a String"
  | endOfFile => "the end of file"
  | keyword word => s!"the keyword `{word.text}`"
  | token => s!"`{token.text}`"

def isReservedWord : Token → Bool
  | keyword _ => true
  | _ => false

def startsStatement : Token → Bool
  | keyword word => word.startsStatement
  | _ => false

def isDeclaration : Token → Bool
  | keyword word => word.isDeclaration
  | _ => false

def isAssignment : Token → Bool
  | symbol (.assign _) => true
  | _ => false

def isOperator : Token → Bool
  | symbol (.binary _) => true
  | _ => false

/-- The operator of an assignment that combines the old value with a new one. -/
def compound? : Token → Option ComputeOp
  | symbol (.assign op) => op
  | _ => none

def isSymbol (sign : Symbol) : Token → Bool
  | symbol s => s = sign
  | _ => false

def isKeyword (word : Keyword) : Token → Bool
  | keyword k => k = word
  | _ => false

def isEnd : Token → Bool
  | endOfFile => true
  | _ => false

end Token

end Scriptlet
