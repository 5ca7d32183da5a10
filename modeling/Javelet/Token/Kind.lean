namespace Javelet

inductive Punct where
  | openBracket | closeBracket | openCurly | closeCurly | openParen | closeParen
  | assign | equals | negation | notEquals
  | less | lessEquals | greater | greaterEquals
  | disjunction | conjunction
  | dot | semicolon | colon | question | comma
  | plusPlus | minusMinus | plusEquals | minusEquals
  | plus | dash | slash | star | percent
deriving DecidableEq

inductive Modifier where
  | publicAccess | privateAccess | protectedAccess
  | static | final | abstract | synchronized | native | transient | volatile | strictfp
deriving DecidableEq

inductive Primitive where
  | int | boolean | void | double | float | long | short | byte | char
deriving DecidableEq

/-- Reserved words that are neither a modifier nor a primitive type. -/
inductive Keyword where
  | classWord | interfaceWord | enumWord | importWord | packageWord | extendsWord | implementsWord
  | trueWord | falseWord | nullWord
  | returnWord | ifWord | elseWord | whileWord | forWord | doWord | newWord
deriving DecidableEq

inductive Kind where
  | eof
  | number
  | string
  | identifier
  | punct (p : Punct)
  | modifier (m : Modifier)
  | primitive (p : Primitive)
  | keyword (w : Keyword)
deriving DecidableEq

namespace Punct

/-- In the order in which a scanner tries them: a spelling stands before its own beginnings. -/
def all : List Punct :=
  [openBracket, closeBracket, openCurly, closeCurly, openParen, closeParen, equals, notEquals,
    negation, assign, lessEquals, less, greaterEquals, greater, disjunction, conjunction, dot,
    semicolon, colon, question, comma, plusPlus, minusMinus, plusEquals, minusEquals, plus, dash,
    slash, star, percent]

/-- What a scanner looks for. A backslash makes the character behind it stand for itself. -/
def pattern : Punct → List Char
  | openBracket => ['\\', '[']
  | closeBracket => ['\\', ']']
  | openCurly => ['\\', '\x7b']
  | closeCurly => ['\\', '\x7d']
  | openParen => ['\\', '(']
  | closeParen => ['\\', ')']
  | assign => ['=']
  | equals => ['=', '=']
  | negation => ['!']
  | notEquals => ['!', '=']
  | less => ['<']
  | lessEquals => ['<', '=']
  | greater => ['>']
  | greaterEquals => ['>', '=']
  | disjunction => ['\\', '|', '\\', '|']
  | conjunction => ['&', '&']
  | dot => ['\\', '.']
  | semicolon => [';']
  | colon => [':']
  | question => ['\\', '?']
  | comma => [',']
  | plusPlus => ['\\', '+', '\\', '+']
  | minusMinus => ['-', '-']
  | plusEquals => ['\\', '+', '=']
  | minusEquals => ['-', '=']
  | plus => ['\\', '+']
  | dash => ['-']
  | slash => ['/']
  | star => ['\\', '*']
  | percent => ['%']

/-- The value of the token, by whose length the scanner moves on. -/
def spelling : Punct → String
  | openBracket => "["
  | closeBracket => "]"
  | openCurly => "\x7b"
  | closeCurly => "\x7d"
  | openParen => "("
  | closeParen => ")"
  | assign => "="
  | equals => "=="
  | negation => "!"
  | notEquals => "!="
  | less => "<"
  | lessEquals => "<="
  | greater => ">"
  | greaterEquals => ">="
  | disjunction => "||"
  | conjunction => "&&"
  | dot => "."
  | semicolon => ";"
  | colon => ":"
  | question => "?"
  | comma => ","
  | plusPlus => "++"
  | minusMinus => "--"
  | plusEquals => "+="
  | minusEquals => "-="
  | plus => "+"
  | dash => "-"
  | slash => "/"
  | star => "*"
  | percent => "%"

def name : Punct → String
  | openBracket => "OpenBracket"
  | closeBracket => "CloseBracket"
  | openCurly => "OpenCurly"
  | closeCurly => "CloseCurly"
  | openParen => "OpenParen"
  | closeParen => "CloseParen"
  | assign => "Assignment"
  | equals => "Equals"
  | negation => "Not"
  | notEquals => "NotEquals"
  | less => "Less"
  | lessEquals => "LessEquals"
  | greater => "Greater"
  | greaterEquals => "GreaterEquals"
  | disjunction => "Or"
  | conjunction => "And"
  | dot => "Dot"
  | semicolon => "Semicolon"
  | colon => "Colon"
  | question => "Question"
  | comma => "Comma"
  | plusPlus => "PlusPlus"
  | minusMinus => "MinusMinus"
  | plusEquals => "PlusEquals"
  | minusEquals => "MinusEquals"
  | plus => "Plus"
  | dash => "Dash"
  | slash => "Slash"
  | star => "Star"
  | percent => "Percent"

end Punct

namespace Modifier

def all : List Modifier :=
  [publicAccess, privateAccess, protectedAccess, static, final, abstract, synchronized, native,
    transient, volatile, strictfp]

def spelling : Modifier → String
  | publicAccess => "public"
  | privateAccess => "private"
  | protectedAccess => "protected"
  | static => "static"
  | final => "final"
  | abstract => "abstract"
  | synchronized => "synchronized"
  | native => "native"
  | transient => "transient"
  | volatile => "volatile"
  | strictfp => "strictfp"

def isVisibility : Modifier → Bool
  | publicAccess | privateAccess | protectedAccess => true
  | _ => false

end Modifier

namespace Primitive

def all : List Primitive := [int, boolean, void, double, float, long, short, byte, char]

def spelling : Primitive → String
  | int => "int"
  | boolean => "boolean"
  | void => "void"
  | double => "double"
  | float => "float"
  | long => "long"
  | short => "short"
  | byte => "byte"
  | char => "char"

end Primitive

namespace Keyword

def all : List Keyword :=
  [classWord, interfaceWord, enumWord, importWord, packageWord, extendsWord, implementsWord,
    trueWord, falseWord, nullWord, returnWord, ifWord, elseWord, whileWord, forWord, doWord,
    newWord]

def spelling : Keyword → String
  | classWord => "class"
  | interfaceWord => "interface"
  | enumWord => "enum"
  | importWord => "import"
  | packageWord => "package"
  | extendsWord => "extends"
  | implementsWord => "implements"
  | trueWord => "true"
  | falseWord => "false"
  | nullWord => "null"
  | returnWord => "return"
  | ifWord => "if"
  | elseWord => "else"
  | whileWord => "while"
  | forWord => "for"
  | doWord => "do"
  | newWord => "new"

end Keyword

namespace Kind

/-- The words that are not free for use as names. -/
def reserved : List (String × Kind) :=
  Keyword.all.map (fun w => (w.spelling, keyword w)) ++
  Modifier.all.map (fun m => (m.spelling, modifier m)) ++
  Primitive.all.map (fun p => (p.spelling, primitive p))

def reserved? (word : String) : Option Kind := reserved.lookup word

def all : List Kind :=
  [eof, number, string, identifier] ++ Punct.all.map punct ++ reserved.map Prod.snd

/-- A reserved word's kind is named by the word, capitalised. -/
def name : Kind → String
  | eof => "EOF"
  | number => "Number"
  | string => "String"
  | identifier => "Identifier"
  | punct p => p.name
  | modifier m => m.spelling.capitalize
  | primitive p => p.spelling.capitalize
  | keyword w => w.spelling.capitalize

def ofName? (text : String) : Option Kind := all.find? fun kind => kind.name == text

def isModifier : Kind → Bool
  | modifier _ => true
  | _ => false

def isPrimitive : Kind → Bool
  | primitive _ => true
  | _ => false

end Kind
end Javelet
