/-
Records as lines of comma-separated fields.

A field is quoted when it holds a comma, a quotation mark or a line break, and quotation marks in it are doubled. A
record whose text would be empty is written as an empty quoted field, so that no line is blank.
-/

namespace PartitionedScan.Csv

/-- whether a character only stands inside quotation marks -/
def needsQuotes (c : Char) : Bool :=
  c == ',' || c == '"' || c == '\n' || c == '\r'

/-- characters with every quotation mark doubled -/
def double : List Char → List Char
  | [] => []
  | c :: r => if c = '"' then '"' :: '"' :: double r else c :: double r

/-- one field -/
def field (s : String) : List Char :=
  let cs := s.toList
  if cs.any needsQuotes then '"' :: (double cs ++ ['"']) else cs

/-- the fields of a record with commas between them -/
def joined (fields : List String) : List Char :=
  List.intercalate [','] (fields.map field)

/-- a record as a line -/
def line (fields : List String) : String :=
  let cs := joined fields
  String.ofList ((if cs.isEmpty then ['"', '"'] else cs) ++ ['\n'])

end PartitionedScan.Csv
