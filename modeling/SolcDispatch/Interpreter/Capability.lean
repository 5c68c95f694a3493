import SolcDispatch.Failure
import SolcDispatch.Json.Basic

/-! Call conventions of scripted builds, the preferred ones first. -/

namespace SolcDispatch

inductive Capability
  | modern
  | callback
  | multiSource
  | singleSource
  | unsupported
  deriving DecidableEq, Repr

namespace Capability

def name : Capability → String
  | modern => "modern"
  | callback => "callback-legacy"
  | multiSource => "multi-source-legacy"
  | singleSource => "single-source-legacy"
  | unsupported => "unsupported"

def entrypoint? : Capability → Option String
  | modern => some "standard"
  | callback => some "callback"
  | multiSource => some "multi"
  | singleSource => some "single"
  | unsupported => none

def isLegacy (capability : Capability) : Bool := capability != modern

/-- The conventions that have an entrypoint, in order of preference. -/
def preference : List Capability := [modern, callback, multiSource, singleSource]

def all : List Capability := preference ++ [unsupported]

/-- The preferred convention among those whose entrypoints a build exports. -/
def ofEntrypoints (entrypoints : List String) : Capability :=
  (preference.find? fun c => c.entrypoint?.any entrypoints.contains).getD unsupported

/-- Names in a value: the items of a list, the characters of a text or the keys of an
object. Items other than texts name no entrypoint, but none may be a list or an
object. -/
def entrypointNames (value : Json) : Except Failure (List String) :=
  match value with
  | .arr items =>
    if items.any fun item => item.isArray || item.isObject then .error .internal
    else .ok (items.filterMap fun
      | .str s => some s
      | _ => none)
  | .str s => .ok (s.toList.map String.singleton)
  | .obj members => .ok (members.map Prod.fst)
  | _ => .error .internal

/-- The convention of a build that advertises its entrypoints by a value. -/
def ofJson (entrypoints : Json) : Except Failure Capability :=
  (entrypointNames entrypoints).map ofEntrypoints

end Capability

end SolcDispatch
