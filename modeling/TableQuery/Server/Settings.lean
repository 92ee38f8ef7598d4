import TableQuery.Registry.File
import TableQuery.Text.Unsigned

/-!
# Settings of the server

Settings come from a YAML file, and environment variables override it.  Each record of the file and each
field of a record has a default, which it keeps where the file leaves it out; without a file there are
only defaults.  A variable that should hold a number and does not is passed over.

How many rows a page has follows from a request and from two settings: the number asked for, or else the
usual one, but at most the largest one and never less than one row.
-/

namespace TableQuery

/-- Where the server listens. -/
structure Address where
  host : String := "127.0.0.1"
  /-- The number that tells, with the host, where to connect. -/
  tcpPort : UInt16 := 8080
  deriving DecidableEq

/-- How results are divided into pages. -/
structure Paging where
  /-- The rows of a page for which no number is requested. -/
  pageSize : UInt64 := 50
  maxPageSize : UInt64 := 1000
  deriving DecidableEq

/-- What is logged, and where. -/
structure Logging where
  /-- The level, or levels by module. -/
  level : String := "info"
  format : String := "pretty"
  output : String := "stdout"
  directory : String := "./logs"
  deriving DecidableEq

/-- The settings. -/
structure Settings where
  address : Address := {}
  dataDirectory : String := "./data"
  paging : Paging := {}
  logging : Logging := {}
  deriving DecidableEq

/-- The address as text. -/
def Address.text (address : Address) : String := address.host ++ ":" ++ toString address.tcpPort.toNat

namespace Paging

/-- The rows of a page for a requested number, if there is one. -/
def limit (paging : Paging) (requested : Option UInt64) : UInt64 :=
  max 1 (min (requested.getD paging.pageSize) (max 1 paging.maxPageSize))

example : limit { pageSize := 20, maxPageSize := 100 } none = 20 := by decide
example : limit { pageSize := 20, maxPageSize := 100 } (some 500) = 100 := by decide
example : limit { pageSize := 20, maxPageSize := 0 } (some 0) = 1 := by decide

/-- A page has a row at least. -/
theorem one_le_limit (paging : Paging) (requested : Option UInt64) : 1 ≤ paging.limit requested := by
  show 1 ≤ if 1 ≤ _ then _ else 1
  split
  · assumption
  · exact UInt64.le_refl 1

end Paging

/-! ## The file -/

/-- Why there are no settings. -/
inductive SettingsFault where
  /-- The file cannot be read, for a reason that the system gives. -/
  | unreadable (reason : String)
  /-- The file is not read as settings, and this is what the reader says about it. -/
  | malformed (complaint : String)
  | datasets (fault : RegistryFault)
  deriving DecidableEq

/-- What is told to the user, where malformed keys are explained. -/
def SettingsFault.message (explain : String → String) : SettingsFault → String
  | unreadable reason => "Failed to read config file: " ++ reason
  | malformed complaint => "Failed to parse YAML: " ++ complaint
  | datasets fault => "Failed to load datasets: " ++ fault.message explain

/-- A file of settings. -/
inductive SettingsFile where
  | absent
  | unreadable (reason : String)
  | contents (text : String)

section

variable {α : Type} (format : Format α)

/-- Reads an address. -/
def Address.read? (node : α) : Option Address := do
  let default : Address := {}
  let fields ← format.record? ["host", "port"] node
  let host ← fields.read? "host" (some default.host) format.text?
  let tcpPort ← fields.read? "port" (some default.tcpPort) fun node =>
    (format.unsigned? UInt16.size node).map Nat.toUInt16
  return ⟨host, tcpPort⟩

/-- Reads the number of rows of a page. -/
def Paging.readSize? (node : α) : Option UInt64 :=
  (format.unsigned? UInt64.size node).map Nat.toUInt64

/-- Reads how results are divided. -/
def Paging.read? (node : α) : Option Paging := do
  let default : Paging := {}
  let fields ← format.record? ["page_size", "max_page_size"] node
  let pageSize ← fields.read? "page_size" (some default.pageSize) (readSize? format)
  let maxPageSize ← fields.read? "max_page_size" (some default.maxPageSize) (readSize? format)
  return ⟨pageSize, maxPageSize⟩

/-- Reads what is logged. -/
def Logging.read? (node : α) : Option Logging := do
  let default : Logging := {}
  let fields ← format.record? ["level", "format", "output", "directory"] node
  let level ← fields.read? "level" (some default.level) format.text?
  let lineFormat ← fields.read? "format" (some default.format) format.text?
  let output ← fields.read? "output" (some default.output) format.text?
  let directory ← fields.read? "directory" (some default.directory) format.text?
  return ⟨level, lineFormat, output, directory⟩

/-- Reads where the dataset files are. -/
def Settings.readDirectory? (node : α) : Option String := do
  let default : Settings := {}
  let fields ← format.record? ["directory"] node
  fields.read? "directory" (some default.dataDirectory) format.text?

/-- Reads settings. -/
def Settings.read? (node : α) : Option Settings := do
  let default : Settings := {}
  let fields ← format.record? ["server", "data", "query", "logging"] node
  let address ← fields.read? "server" (some default.address) (Address.read? format)
  let dataDirectory ← fields.read? "data" (some default.dataDirectory) (readDirectory? format)
  let paging ← fields.read? "query" (some default.paging) (Paging.read? format)
  let logging ← fields.read? "logging" (some default.logging) (Logging.read? format)
  return ⟨address, dataDirectory, paging, logging⟩

end

namespace Settings

/-- The settings of a file, given the reader of YAML. -/
def ofFile (reader : DocumentReader) : SettingsFile → Except SettingsFault Settings
  | .absent => .ok {}
  | .unreadable reason => .error (.unreadable reason)
  | .contents text => (reader.read (read? reader.format) text).mapError .malformed

/-! ## The environment -/

/-- The value of a variable that holds a number below a bound. -/
def numberBelow? (bound : Nat) (value : Option String) : Option Nat :=
  value.bind fun text => (Text.unsignedBelow 10 bound text.toList).toOption

/-- The settings that an environment overrides. -/
def overridden (settings : Settings) (valueOf : String → Option String) : Settings where
  address :=
    ⟨(valueOf "TABULA_SERVER_HOST").getD settings.address.host,
      ((numberBelow? UInt16.size (valueOf "TABULA_SERVER_PORT")).map Nat.toUInt16).getD
        settings.address.tcpPort⟩
  dataDirectory := (valueOf "TABULA_DATA_DIR").getD settings.dataDirectory
  paging :=
    { settings.paging with
      pageSize := ((numberBelow? UInt64.size (valueOf "TABULA_PAGE_SIZE")).map Nat.toUInt64).getD
        settings.paging.pageSize }
  logging :=
    ⟨(valueOf "RUST_LOG").getD settings.logging.level,
      (valueOf "LOG_FORMAT").getD settings.logging.format,
      (valueOf "LOG_OUTPUT").getD settings.logging.output,
      (valueOf "LOG_DIR").getD settings.logging.directory⟩

/-- The settings of a file and an environment. -/
def load (reader : DocumentReader) (file : SettingsFile) (valueOf : String → Option String) :
    Except SettingsFault Settings :=
  (ofFile reader file).map fun settings => settings.overridden valueOf

/-- The variables that hand the logging settings on, with their values. -/
def loggingVariables (settings : Settings) : List (String × String) :=
  [("RUST_LOG", settings.logging.level), ("LOG_FORMAT", settings.logging.format),
    ("LOG_OUTPUT", settings.logging.output), ("LOG_DIR", settings.logging.directory)]

/-- The datasets of the data directory, given its listing. -/
def registry (readers : Readers) (listing : Except String (List DirectoryFile)) :
    Except SettingsFault Registry :=
  (Registry.ofDirectory readers listing).mapError .datasets

/-- The JSON form of settings. -/
def toJson (settings : Settings) : Json :=
  let size (value : UInt64) : Json := .ofUInt64 value
  .object
    [("server", .object [("host", .string settings.address.host),
      ("port", .ofUInt64 settings.address.tcpPort.toUInt64)]),
    ("data", .object [("directory", .string settings.dataDirectory)]),
    ("query", .object [("page_size", size settings.paging.pageSize),
      ("max_page_size", size settings.paging.maxPageSize)]),
    ("logging", .object [("level", .string settings.logging.level),
      ("format", .string settings.logging.format), ("output", .string settings.logging.output),
      ("directory", .string settings.logging.directory)])]

end Settings

/-! ## The logging settings -/

/-- The form of log lines. -/
inductive LogFormat where
  /-- Several lines for each event. -/
  | pretty
  /-- One JSON object for each event. -/
  | json
  /-- One short line for each event. -/
  | compact
  deriving DecidableEq, Repr

/-- The form of a setting; any setting that is not known is the pretty form. -/
def LogFormat.ofSetting : Option String → LogFormat
  | some "json" => json
  | some "compact" => compact
  | _ => pretty

/-- Where log lines go. -/
inductive LogOutput where
  | stdout
  | file
  | both
  deriving DecidableEq, Repr

/-- The output of a setting; any setting that is not known is standard output. -/
def LogOutput.ofSetting : Option String → LogOutput
  | some "file" => file
  | some "both" => both
  | _ => stdout

end TableQuery
