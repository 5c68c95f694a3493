import SolcDispatch.Artifact.Name
import SolcDispatch.Json.Basic
import SolcDispatch.Settings.EnvFile
import SolcDispatch.Settings.Numeral

/-! Settings of the service, read from environment variables and a file of such
variables. Names may be written in capitals or small letters. -/

namespace SolcDispatch

inductive Environment
  | dev
  | staging
  | prod
  deriving DecidableEq, Repr

def Environment.name : Environment → String
  | .dev => "dev"
  | .staging => "staging"
  | .prod => "prod"

inductive LogLevel
  | debug
  | info
  | warning
  | error
  | critical
  deriving DecidableEq, Repr

def LogLevel.name : LogLevel → String
  | .debug => "DEBUG"
  | .info => "INFO"
  | .warning => "WARNING"
  | .error => "ERROR"
  | .critical => "CRITICAL"

structure Settings where
  host : String := "0.0.0.0"
  port : Int := 3000
  maxRequestBytes : Int := 1000000000
  artifactDir : String := "/tmp/solbroker"
  baseUrl : String := "https://binaries.soliditylang.org"
  nativePlatform : String := "linux-amd64"
  nativeFloor : String := "0.6.0"
  refreshIntervalSeconds : Binary64 := .ofInt 3600
  httpTimeoutSeconds : Binary64 := .ofInt 60
  invocationTimeoutSeconds : Binary64 := .ofInt 120
  interpreterProgram : String := "node"
  traceCapacity : Int := 256
  logLevel : LogLevel := .info
  environment : Environment := .dev

namespace Settings

/-- Variables by name, in small letters. -/
abbrev Variables := List (String × String)

def smallLetters (name : String) : String := String.ofList (name.toList.map Char.toLower)

/-- The variables of a file and of the environment; the environment wins. -/
def allVariables (environment : List (String × String)) (file : Option String) : Variables :=
  let named := fun (vs : List (String × String)) => vs.map fun v => (smallLetters v.1, v.2)
  Assoc.ofPairs (named ((file.map EnvFile.read).getD []) ++ named environment)

/-- A variable that cannot be read: its name and what is asked for. -/
abbrev Violation := String

/-- The value of a setting: the default if the variable is not set. -/
def setting {α : Type} (vs : Variables) (name : String) (complaint : String)
    (read? : String → Option α) (default : α) : Except Violation α :=
  match Assoc.get? vs (smallLetters name) with
  | none => .ok default
  | some text => match read? text with
    | some value => .ok value
    | none => .error s!"{name}: {complaint}"

def intComplaint : String :=
  "Input should be a valid integer, unable to parse string as an integer"
def floatComplaint : String :=
  "Input should be a valid number, unable to parse string as a number"
def environmentComplaint : String := "Input should be 'dev', 'staging' or 'prod'"
def logLevelComplaint : String :=
  "Input should be 'DEBUG', 'INFO', 'WARNING', 'ERROR' or 'CRITICAL'"

def environment? (text : String) : Option Environment :=
  [Environment.dev, .staging, .prod].find? fun e => e.name == text

def logLevel? (text : String) : Option LogLevel :=
  [LogLevel.debug, .info, .warning, .error, .critical].find? fun l => l.name == text

def violationOf {α : Type} : Except Violation α → List Violation
  | .ok _ => []
  | .error violation => [violation]

def names : List String :=
  ["HOST", "PORT", "MAX_REQUEST_BYTES", "ARTIFACT_DIR", "BINARIES_BASE_URL", "NATIVE_PLATFORM",
    "NATIVE_MIN_VERSION", "CATALOG_REFRESH_INTERVAL_S", "HTTP_TIMEOUT_S", "INVOCATION_TIMEOUT_S",
    "NODE_BINARY", "TRACE_BUFFER_SIZE", "LOG_LEVEL", "ENVIRONMENT"]

/-- The settings given by variables, or all that is wrong with the variables. -/
def ofVariables (vs : Variables) : Except (List Violation) Settings :=
  let d : Settings := {}
  let text := fun name (default : String) => ((Assoc.get? vs (smallLetters name)).getD default)
  let port := setting vs "PORT" intComplaint Numeral.int? d.port
  let maxBytes := setting vs "MAX_REQUEST_BYTES" intComplaint Numeral.int? d.maxRequestBytes
  let interval :=
    setting vs "CATALOG_REFRESH_INTERVAL_S" floatComplaint Numeral.float? d.refreshIntervalSeconds
  let httpTimeout :=
    setting vs "HTTP_TIMEOUT_S" floatComplaint Numeral.float? d.httpTimeoutSeconds
  let timeout :=
    setting vs "INVOCATION_TIMEOUT_S" floatComplaint Numeral.float? d.invocationTimeoutSeconds
  let capacity := setting vs "TRACE_BUFFER_SIZE" intComplaint Numeral.int? d.traceCapacity
  let logLevel := setting vs "LOG_LEVEL" logLevelComplaint logLevel? d.logLevel
  let environment := setting vs "ENVIRONMENT" environmentComplaint environment? d.environment
  match port, maxBytes, interval, httpTimeout, timeout, capacity, logLevel, environment with
  | .ok port, .ok maxBytes, .ok interval, .ok httpTimeout, .ok timeout, .ok capacity,
      .ok logLevel, .ok environment =>
    .ok {
      host := text "HOST" d.host
      port
      maxRequestBytes := maxBytes
      artifactDir := text "ARTIFACT_DIR" d.artifactDir
      baseUrl := text "BINARIES_BASE_URL" d.baseUrl
      nativePlatform := text "NATIVE_PLATFORM" d.nativePlatform
      nativeFloor := text "NATIVE_MIN_VERSION" d.nativeFloor
      refreshIntervalSeconds := interval
      httpTimeoutSeconds := httpTimeout
      invocationTimeoutSeconds := timeout
      interpreterProgram := text "NODE_BINARY" d.interpreterProgram
      traceCapacity := capacity
      logLevel
      environment }
  | _, _, _, _, _, _, _, _ =>
    .error (violationOf port ++ violationOf maxBytes ++ violationOf interval ++
      violationOf httpTimeout ++ violationOf timeout ++ violationOf capacity ++
      violationOf logLevel ++ violationOf environment)

/-- The settings given by the environment and by a file of variables. -/
def load (environment : List (String × String)) (file : Option String) :
    Except (List Violation) Settings :=
  ofVariables (allVariables environment file)

def indexUrl (s : Settings) (kind : BuildKind) : String :=
  Artifact.indexUrl s.baseUrl s.nativePlatform kind

/-- All settings by name, and the addresses that follow from them. -/
def toJson (s : Settings) : Json :=
  .obj [("HOST", .str s.host), ("PORT", .int s.port), ("MAX_REQUEST_BYTES", .int s.maxRequestBytes),
    ("ARTIFACT_DIR", .str s.artifactDir), ("BINARIES_BASE_URL", .str s.baseUrl),
    ("NATIVE_PLATFORM", .str s.nativePlatform), ("NATIVE_MIN_VERSION", .str s.nativeFloor),
    ("CATALOG_REFRESH_INTERVAL_S", .float s.refreshIntervalSeconds),
    ("HTTP_TIMEOUT_S", .float s.httpTimeoutSeconds),
    ("INVOCATION_TIMEOUT_S", .float s.invocationTimeoutSeconds),
    ("NODE_BINARY", .str s.interpreterProgram), ("TRACE_BUFFER_SIZE", .int s.traceCapacity),
    ("LOG_LEVEL", .str s.logLevel.name), ("ENVIRONMENT", .str s.environment.name),
    ("scripted_index_url", .str (s.indexUrl .scripted)),
    ("native_index_url", .str (s.indexUrl .native))]

end Settings

end SolcDispatch
