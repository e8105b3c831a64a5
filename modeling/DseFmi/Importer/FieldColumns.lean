import DseFmi.Importer.TextLines

/-!
# Fields and columns

A data line is meant to set the signal of each value reference of the header from the field
in its column. The reader goes by tokens of pieces of a line: it passes over empty fields,
takes what is not a number for zero, and cuts lines that do not fit into its buffer.
-/

namespace DseFmi.Importer

open DseFmi.Library

/-- Which fields are numbers; a blank field is none. -/
structure NumberFormat where
  isNumber : List Char → Bool
  nonblank : ∀ text, isNumber text = true → ∃ ch ∈ text, isSpace ch = false

def lineContent (line : List Char) : List Char := line.takeWhile (· ≠ '\n')

/-- The fields of a line; two delimiters in a row have an empty field between them. -/
def fields (line : List Char) : List (List Char) := (lineContent line).splitOnP isDelimiter

structure Row (D : Type) where
  timestamp : D
  columns : List (Option D)
  deriving DecidableEq, Repr

/-- The texts behind the timestamp, as many as there are columns. -/
def columnValues {D : Type} (convert : List Char → Option D) : Nat → List (List Char) →
    List (Option D)
  | 0, _ => []
  | n + 1, [] => none :: columnValues convert n []
  | n + 1, cell :: cells => convert cell :: columnValues convert n cells

/-- The references of a header, behind its first field. -/
def references (header : List Char) : List UInt32 :=
  ((fields header).tail.filter fun field => !field.isEmpty).map atoi

def headerLine (text : List Char) : List Char := (splitLines text).headD []

def dataLines (text : List Char) : List (List Char) := (splitLines text).tail

variable {D : Type} [LinearOrder D] (numbers : Numbers D) (format : NumberFormat)

def fieldValue (field : List Char) : Option D :=
  if format.isNumber field then numbers.strtod field else none

/-- What a line says: nothing unless its first field is a number that is not negative. -/
def dataRow (columns : Nat) (line : List Char) : Option (Row D) :=
  match fields line with
  | [] => none
  | first :: rest =>
      ((fieldValue numbers format first).filter fun ts => numbers.zero ≤ ts).map fun ts =>
        ⟨ts, columnValues (fieldValue numbers format) columns rest⟩

def Sample.row (columns : Nat) (s : Sample D) : Row D :=
  ⟨s.timestamp, columnValues numbers.strtod columns s.cells⟩

/-- A row sets the signals of its columns, and no other signal. -/
def setColumns : List Nat → List D → List (Option D) → List D
  | signal :: index, values, some v :: columns => setColumns index (values.set signal v) columns
  | _ :: index, values, none :: columns => setColumns index values columns
  | _, values, _ => values

/-- The values after each of the calls that release some rows. -/
def valuesAfter (index : List Nat) : List D → List (List (Row D)) → List (List D)
  | _, [] => []
  | values, rows :: later =>
      let values := rows.foldl (fun values row => setColumns index values row.columns) values
      values :: valuesAfter index values later

/-- A reader before a line that it reads alone. -/
def readerAt (index : List Nat) (line : List Char) : CsvDesc D :=
  (csvReadLine numbers { file := line, line := [], timestamp := numbers.zero, index }).2

/-- The signals of the references are found, and each data line is applied as what it says:
on its own, and with the others in the order of the text. -/
structure FollowsFields (rxVr : List UInt32) (text : List Char) (c : CsvDesc D) : Prop where
  index : c.index = (references (headerLine text)).map rxVr.idxOf
  alone : ∀ line ∈ dataLines text, ∀ values times,
    (applyCalls numbers (readerAt numbers c.index line) values times).map
        (fun call => call.samples.map (Sample.row numbers c.index.length)) =
      releases Row.timestamp times (dataRow numbers format c.index.length line).toList
  together : ∀ values times,
    (applyCalls numbers c values times).map
        (fun call => call.samples.map (Sample.row numbers c.index.length)) =
      releases Row.timestamp times
        ((dataLines text).filterMap (dataRow numbers format c.index.length))
  values : ∀ values times, (applyCalls numbers c values times).map Applied.values =
    valuesAfter c.index values (releases Row.timestamp times
      ((dataLines text).filterMap (dataRow numbers format c.index.length)))

/-- Fields before an empty one are numbers, or cannot be converted; the texts behind an empty
field move forward, and those that come into a column cannot be converted. -/
def ColumnsRead : Nat → List (List Char) → Prop
  | 0, _ => True
  | _, [] => True
  | n + 1, [] :: rest =>
      ∀ cell ∈ (rest.filter fun field => !field.isEmpty).take (n + 1), numbers.strtod cell = none
  | n + 1, field :: rest =>
      (format.isNumber field = true ∨ numbers.strtod field = none) ∧ ColumnsRead n rest

/-- A line that is read at once, and to its end. -/
def Fits (line : List Char) : Prop :=
  line.length ≤ csvLineMaxlen - 1 ∧ ∀ ch ∈ line, ch ≠ '\x00'

/-- The columns of a line with a timestamp are read; the beginning of a line without a number
cannot be converted to one that is not negative. -/
def FieldsRead (columns : Nat) (line : List Char) : Prop :=
  match fields line with
  | [] => True
  | first :: rest =>
      (format.isNumber first = true →
        (∃ ts, numbers.strtod first = some ts ∧ numbers.zero ≤ ts) →
          ColumnsRead numbers format columns rest) ∧
        (format.isNumber first = false → validTimestamp numbers line = none)

/-- One piece of a line that does not fit has the timestamp and the columns of the line, and
no other piece has a timestamp. -/
def PiecesRead (columns : Nat) (line : List Char) : Prop :=
  match dataRow numbers format columns line with
  | none => ∀ p ∈ pieces line, validTimestamp numbers (cString p) = none
  | some row =>
      ∃ before p after, pieces line = before ++ p :: after ∧
        (∀ q ∈ before ++ after, validTimestamp numbers (cString q) = none) ∧
        validTimestamp numbers (cString p) = some row.timestamp ∧
        columnValues numbers.strtod columns (strtok (cString p)).tail = row.columns

structure LineRead (columns : Nat) (line : List Char) : Prop where
  fits : Fits line → FieldsRead numbers format columns line
  long : ¬ Fits line → PiecesRead numbers format columns line

/-- The references that the reader takes from a header, no more than there are inputs. -/
def readReferences (rxVr : List UInt32) (header : List Char) : List UInt32 :=
  ((strtok (cString (header.take (csvLineMaxlen - 1)))).tail.map atoi).take rxVr.length

/-- There is a field in front of the references, an input for each of them, and the same references
where the buffer or a NUL ends the header. No further piece of the header is taken for a data
line. -/
structure HeaderRead (rxVr : List UInt32) (header : List Char) : Prop where
  first : (fields header).head? = some [] → references header = []
  room : (references header).length ≤ rxVr.length
  cut : references (cString (header.take (csvLineMaxlen - 1))) = references header
  rest : ∀ p ∈ (pieces header).tail, validTimestamp numbers (cString p) = none

structure TextRead (rxVr : List UInt32) (text : List Char) : Prop where
  header : HeaderRead numbers rxVr (headerLine text)
  lines : ∀ line ∈ dataLines text,
    LineRead numbers format (references (headerLine text)).length line

end DseFmi.Importer
