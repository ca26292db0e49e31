import NPlusOne.Text

namespace NPlusOne

inductive PathError where
  | notFound
  | notDirectory
  | isDirectory
  | alreadyExists
  | nameTooLong
  | tooManyLinks
  deriving DecidableEq, Repr

def PathError.describe : PathError → String
  | .notFound => "[Errno 2] No such file or directory"
  | .notDirectory => "[Errno 20] Not a directory"
  | .isDirectory => "[Errno 21] Is a directory"
  | .alreadyExists => "[Errno 17] File exists"
  | .nameTooLong => "[Errno 36] File name too long"
  | .tooManyLinks => "[Errno 40] Too many levels of symbolic links"

inductive ParseError where
  | sourceMissing (path : String)
  | rejected (path : String)
  | noUnit (path : String)
  | textRejected
  | noLibrary (reason : String)
  deriving DecidableEq, Repr

def ParseError.message : ParseError → String
  | .sourceMissing path => "Source file not found: " ++ path
  | .rejected path => "Failed to parse " ++ path ++ ": Error parsing translation unit."
  | .noUnit path => "Failed to parse " ++ path ++ ": returned None"
  | .textRejected => "Failed to parse source string: Error parsing translation unit."
  | .noLibrary reason => "Failed to load libclang: " ++ reason ++
      ". Please install libclang with 'pip install libclang' or install LLVM."

inductive WordsError where
  | openQuotation
  | danglingEscape
  deriving DecidableEq, Repr

def WordsError.message : WordsError → String
  | .openQuotation => "No closing quotation"
  | .danglingEscape => "No escaped character"

/-- The most decimal digits that a whole number is read or written with. -/
def maxDigits : Nat := 4300

/-- Everything that can end an operation early. -/
inductive Failure where
  /-- The front end could not list the children of a node. -/
  | children (reason : String)
  | parse (error : ParseError)
  | unlocated (spelling : String)
  /-- Calls nest deeper than the program has declarations. -/
  | tooDeep
  /-- The lists and maps of a JSON document stand inside each other too often. -/
  | documentTooDeep (isMap : Bool)
  | frozenRegistry
  | path (error : PathError)
  | linkLoop (quoted : String)
  | nullInPath
  | badEncoding
  /-- A text holds half of a surrogate pair, which no byte string stands for. -/
  | notEncodable
  | wrongKind
  | noMember
  | missingKey (quoted : String)
  | notYaml
  | badNumber (text : String)
  /-- A whole number has more digits than one is read or written with; the count is told when it was
  read. -/
  | tooManyDigits (count : Option Nat)
  | numberTooLarge
  | codeTooLarge
  | emptyNumber
  | words (error : WordsError)
  | unknownLevel (quoted : String)
  | badFormat (text : String)
  | illegalCharacter (text : String)
  | library (reason : String)
  deriving DecidableEq, Repr

/-- The wording of a failure; the failures that are told by their kind alone have none. -/
def Failure.message : Failure → String
  | .children reason => reason
  | .parse error => error.message
  | .unlocated spelling => "Declaration '" ++ spelling ++ "' has no file location"
  | .tooDeep => "maximum recursion depth exceeded"
  | .documentTooDeep isMap =>
    let kind := if isMap then "object" else "array"
    s!"maximum recursion depth exceeded while decoding a JSON {kind} from a unicode string"
  | .frozenRegistry => "QueryTypeRegistry is frozen"
  | .path error => error.describe
  | .linkLoop quoted => "Symlink loop from " ++ quoted
  | .nullInPath => "embedded null byte"
  | .badEncoding => ""
  | .notEncodable => ""
  | .wrongKind => ""
  | .noMember => ""
  | .missingKey quoted => quoted
  | .notYaml => ""
  | .badNumber text => text
  | .tooManyDigits count =>
    let found := match count with
      | some n => s!": value has {n} digits"
      | none => ""
    s!"Exceeds the limit ({maxDigits} digits) for integer string conversion{found}; " ++
      "use sys.set_int_max_str_digits() to increase the limit"
  | .numberTooLarge => "int too large to convert to float"
  | .codeTooLarge => "Python int too large to convert to C int"
  | .emptyNumber => "string index out of range"
  | .words error => error.message
  | .unknownLevel quoted => "Unknown level: " ++ quoted
  | .badFormat text => "Invalid format '" ++ text ++ "' for '%' style"
  | .illegalCharacter text => text ++ " cannot be used in worksheets."
  | .library reason => reason

end NPlusOne
