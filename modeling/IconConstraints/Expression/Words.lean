/-!
# Words with a meaning of their own

Reserved words never name a value.  Those that begin a statement tell a
statement from an assignment.
-/

namespace IconConstraints

def statementKeywords : List String :=
  ["assert", "async", "break", "class", "continue", "def", "del", "elif", "else", "except",
    "finally", "for", "from", "global", "if", "import", "nonlocal", "pass", "raise", "return",
    "try", "while", "with", "yield"]

def reservedWords : List String :=
  ["and", "as", "assert", "async", "await", "break", "class", "continue", "def", "del", "elif",
    "else", "except", "finally", "for", "from", "global", "if", "import", "in", "is", "lambda",
    "nonlocal", "not", "or", "pass", "raise", "return", "try", "while", "with", "yield"]

end IconConstraints
