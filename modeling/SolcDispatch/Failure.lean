import SolcDispatch.Json.ParseError
import SolcDispatch.Number.Decimal
import SolcDispatch.Version.Basic

/-! Why a request fails: every cause, its text, its class and the HTTP status that
goes with the class. -/

namespace SolcDispatch

inductive Failure
  -- the service
  | notRunning
  | unknownVersion
  -- the release depot
  | feedUnreachable (url reason : String)
  | feedRefused (url : String) (status : Int)
  | downloadUnreachable (version reason : String)
  | downloadRefused (version : String) (status : Int) (reason : String)
  -- the input document
  | invalidInput (violations : List String)
  | missingContent (path : String)
  | noSources
  | invalidSeed (index : Nat) (violations : List String)
  | severalSources
  | noInterface
  -- processes
  | startFailed (program reason : String)
  | interpreterStartFailed (command reason : String)
  | loadFailed (artifact reason : String)
  | interpreterNotRunning
  | inputClosed (reason : String)
  | interpreterExited (status : Int)
  | wrongReply (id : String) (expected : Nat)
  | callFailed (text : String)
  | modernBuild
  | crashed (diagnostics : String)
  | timedOut (seconds : Binary64)
  -- what compilers print
  | noOutput
  | outputNotJson (error : Json.ParseError)
  | outputNotObject
  | legacyOutputNotJson (error : Json.ParseError)
  | legacyOutputNotObject
  | contractKey (key : String)
  | interfaceNotJson (error : Json.ParseError)
  | messageNotJson (error : Json.ParseError)
  | messageNotObject
  | replyWithoutOutput
  -- values out of range
  | badVersion (error : VersionError)
  | longInteger (digits : Nat)
  | lineTooLong (whole : Bool)
  | nestedTooDeep
  | notFinite
  | negativeCapacity
  -- a value of the wrong shape, or a file operation that is refused
  | internal
  deriving DecidableEq, Repr

inductive FailureClass
  | broker
  | unknownVersion
  | catalogRefresh
  | acquisition
  | inputValidation
  | unsupportedLegacyConfig
  | invocation
  | compilerCrash
  | outputParse
  | invocationTimeout
  | value
  | internal
  deriving DecidableEq, Repr

namespace FailureClass

def name : FailureClass → String
  | .broker => "BrokerError"
  | .unknownVersion => "UnknownVersionError"
  | .catalogRefresh => "CatalogRefreshError"
  | .acquisition => "AcquisitionError"
  | .inputValidation => "InputValidationError"
  | .unsupportedLegacyConfig => "UnsupportedLegacyConfigError"
  | .invocation => "InvocationError"
  | .compilerCrash => "CompilerCrashError"
  | .outputParse => "OutputParseError"
  | .invocationTimeout => "InvocationTimeoutError"
  | .value => "ValueError"
  | .internal => "internal"

/-- The HTTP status of a class; a class that the service does not foresee has none. -/
def status? : FailureClass → Option Nat
  | .broker | .invocation | .compilerCrash | .outputParse => some 500
  | .unknownVersion | .inputValidation | .unsupportedLegacyConfig => some 400
  | .catalogRefresh => some 503
  | .acquisition => some 502
  | .invocationTimeout => some 504
  | .value | .internal => none

end FailureClass

namespace Failure

def failureClass : Failure → FailureClass
  | notRunning => .broker
  | unknownVersion => .unknownVersion
  | feedUnreachable .. | feedRefused .. => .catalogRefresh
  | downloadUnreachable .. | downloadRefused .. => .acquisition
  | invalidInput _ | missingContent _ | noSources | invalidSeed .. => .inputValidation
  | severalSources | noInterface => .unsupportedLegacyConfig
  | startFailed .. | interpreterStartFailed .. | loadFailed .. | interpreterNotRunning
  | inputClosed _ | interpreterExited _ | wrongReply .. | callFailed _ | modernBuild =>
    .invocation
  | crashed _ => .compilerCrash
  | timedOut _ => .invocationTimeout
  | noOutput | outputNotJson _ | outputNotObject | legacyOutputNotJson _
  | legacyOutputNotObject | contractKey _ | interfaceNotJson _ | messageNotJson _
  | messageNotObject | replyWithoutOutput => .outputParse
  | badVersion _ | longInteger _ | lineTooLong _ | nestedTooDeep | notFinite
  | negativeCapacity => .value
  | internal => .internal

def message : Failure → String
  | notRunning => "broker is not running"
  | unknownVersion => "invalid version"
  | feedUnreachable url reason => s!"fetch {url} failed: {reason}"
  | feedRefused url status => s!"fetch {url} returned {status}"
  | downloadUnreachable version reason => s!"fetch {version} failed: {reason}"
  | downloadRefused version status reason => s!"fetch {version} returned {status}: {reason}"
  | invalidInput violations => "invalid input: " ++ "; ".intercalate violations
  | missingContent path => s!"missing content for source: {path}"
  | noSources => "at least one source is required"
  | invalidSeed index violations => s!"invalid seed {index}: " ++ "; ".intercalate violations
  | severalSources => "multiple sources not supported in legacy mode"
  | noInterface => "compiler does not support any json interfaces"
  | startFailed program reason => s!"failed to start {program}: {reason}"
  | interpreterStartFailed command reason =>
    s!"failed to start interpreter host {Text.quoted command}: {reason}"
  | loadFailed artifact reason => s!"interpreter failed to load {artifact}: {reason}"
  | interpreterNotRunning => "interpreter host is not running"
  | inputClosed reason => s!"interpreter host closed its input: {reason}"
  | interpreterExited status => s!"interpreter host exited with status {status} and no output"
  | wrongReply id expected => s!"interpreter host answered request {id}, expected {expected}"
  | callFailed text => text
  | modernBuild => "standard-JSON interpreter handed to the legacy shim"
  | crashed diagnostics => diagnostics
  | timedOut seconds => s!"compilation timed out after {seconds.toBriefText}s"
  | noOutput => "compiler produced no output"
  | outputNotJson error => s!"failed to parse compiler output: {error.message}"
  | outputNotObject => "compiler output is not a JSON object"
  | legacyOutputNotJson error => s!"failed to parse legacy compiler output: {error.message}"
  | legacyOutputNotObject => "legacy compiler output is not a JSON object"
  | contractKey key => s!"unrecognised legacy contract key: {Text.quoted key}"
  | interfaceNotJson error => s!"legacy contract interface is not JSON: {error.message}"
  | messageNotJson error => s!"interpreter host sent malformed message: {error.message}"
  | messageNotObject => "interpreter host sent a non-object message"
  | replyWithoutOutput => "interpreter host returned no output"
  | badVersion error => error.message
  | longInteger digits => Json.longIntegerMessage digits
  | lineTooLong true => "Separator is found, but chunk is longer than limit"
  | lineTooLong false => "Separator is not found, and chunk exceed the limit"
  | nestedTooDeep => "Maximum serialization depth exceeded"
  | notFinite => "Out of range float values are not JSON compliant"
  | negativeCapacity => "maxlen must be non-negative"
  | internal => "<internal>"

/-- The places at which an input document is at fault. -/
def violations : Failure → List String
  | invalidInput violations => violations
  | missingContent path => [s!"sources.{path}.content: missing"]
  | noSources => ["sources: empty"]
  | invalidSeed index violations =>
    violations.map fun v => s!"settings.nonDeterministicSeeds.{index}.{v}"
  | _ => []

/-- The status with which the depot refused a download. -/
def depotStatus : Failure → Option Int
  | downloadRefused _ status _ => some status
  | _ => none

/-- Whether the service foresees the failure and answers it with its own status. -/
def isForeseen (failure : Failure) : Bool := failure.failureClass.status?.isSome

/-- The text of a failure, or the name of its class if the text is empty. -/
def describe (failure : Failure) : String :=
  if failure.message = "" then failure.failureClass.name else failure.message

/-- A text that is not JSON fails as `wrap` says; a number of too many digits in it
is a failure of its own. -/
def ofParse {α : Type} (wrap : Json.ParseError → Failure) :
    Except Json.ParseError α → Except Failure α
  | .ok value => .ok value
  | .error (.longInteger digits) => .error (.longInteger digits)
  | .error error => .error (wrap error)

end Failure

end SolcDispatch
