import SolcDispatch.Json.Parser
import SolcDispatch.Json.Printer
import SolcDispatch.Legacy.Diagnostic
import SolcDispatch.Legacy.Gas
import SolcDispatch.LinkReference.Group
import SolcDispatch.LinkReference.Placeholder

/-! Outputs of legacy compilers in the standard layout: contracts by file and name,
sources with their numbers, and diagnostics. -/

namespace SolcDispatch.Legacy

/-- Code of a contract with the places of its libraries. -/
structure Code where
  object : Json
  opcodes : Option Json
  sourceMap : Json
  linkReferences : Json.Members

structure Contract where
  abi : Json
  metadata : Json
  assembly : Json
  creation : Code
  deployed : Code
  methodIdentifiers : Json
  gasEstimates : Json

structure Source where
  id : Option Nat
  ast : Json

/-- A whole output; each file once, and each name once in its file. -/
structure Output where
  diagnostics : List Diagnostic
  contracts : List (String × List (String × Contract))
  sources : List (String × Source)

def Code.toJson (code : Code) : Json :=
  .obj <| [("object", code.object)] ++
    (code.opcodes.map fun value => ("opcodes", value)).toList ++
    [("sourceMap", code.sourceMap), ("linkReferences", .obj code.linkReferences)]

def Contract.toJson (c : Contract) : Json :=
  .obj [("abi", c.abi), ("metadata", c.metadata),
    ("evm", .obj [("legacyAssembly", c.assembly), ("bytecode", c.creation.toJson),
      ("deployedBytecode", c.deployed.toJson), ("methodIdentifiers", c.methodIdentifiers),
      ("gasEstimates", c.gasEstimates)])]

def Source.toJson (s : Source) : Json :=
  .obj [("id", .ofOption .ofNat s.id), ("legacyAST", s.ast)]

def Output.toJson (output : Output) : Json :=
  .obj [("errors", .arr (output.diagnostics.map Diagnostic.toJson)),
    ("contracts", .obj (output.contracts.map fun file =>
      (file.1, .obj (file.2.map fun c => (c.1, c.2.toJson))))),
    ("sources", .obj (output.sources.map fun s => (s.1, s.2.toJson)))]

/-- The libraries of the code in a member, which is empty or a text. -/
def librariesIn (object : Json) : Except Failure LinkReference.ByLibrary :=
  if !object.truthy then .ok []
  else match object with
    | .str code => .ok (LinkReference.find code)
    | _ => .error .internal

/-- The interface in a member, an empty list where it is empty. -/
def abiIn (interface : Json) : Except Failure Json :=
  if !interface.truthy then .ok (.arr [])
  else match interface with
    | .str text => Failure.ofParse .interfaceNotJson (Json.parse text)
    | _ => .error .internal

def Contract.ofJson (contract : Json) : Except Failure Contract :=
  if !contract.isObject then .error .internal
  else do
    let gas ← contractGas (contract.getD "gasEstimates")
    let abi ← abiIn (contract.getD "interface")
    let object := contract.getD "bytecode"
    let deployedObject := contract.getD "runtimeBytecode"
    let libraries ← librariesIn object
    let deployedLibraries ← librariesIn deployedObject
    return {
      abi
      metadata := contract.getD "metadata"
      assembly := contract.getD "assembly"
      creation := ⟨object, some (contract.getD "opcodes"), contract.getD "srcmap",
        libraries.members⟩
      deployed := ⟨deployedObject, none, contract.getD "srcmapRuntime",
        deployedLibraries.members⟩
      methodIdentifiers := contract.getD "functionHashes"
      gasEstimates := gas }

def splitLastColon? (cs : List Char) : Option (List Char × List Char) :=
  (beforeLastColon? cs).map fun before => (before, cs.drop (before.length + 1))

/-- The file and the name in a contract's key. The last colon separates them; a file
lies on one line and a name is not empty. -/
def splitKey? (key : String) : Option (String × String) :=
  match splitLastColon? key.toList with
  | none => if key = "" then none else some ("", key)
  | some (file, name) =>
    if name.isEmpty || file.contains '\n' then none
    else some (String.ofList file, String.ofList name)

def putContract (files : List (String × List (String × Contract))) (file name : String)
    (contract : Contract) : List (String × List (String × Contract)) :=
  Assoc.put files file (Assoc.put ((Assoc.get? files file).getD []) name contract)

def membersOf (value : Json) : Except Failure Json.Members :=
  if !value.truthy then .ok []
  else match value with
    | .obj members => .ok members
    | _ => .error .internal

def contractsFrom (files : List (String × List (String × Contract))) :
    Json.Members → Except Failure (List (String × List (String × Contract)))
  | [] => .ok files
  | (key, value) :: rest =>
    match splitKey? key with
    | none => .error (.contractKey key)
    | some (file, name) => do
      let contract ← Contract.ofJson value
      contractsFrom (putContract files file name contract) rest

/-- The names in a source list; names are texts, and lists and objects may not occur. -/
def sourceNames (list : Json) : Except Failure (List Json) :=
  if !list.truthy then .ok []
  else do
    let names ← itemsOf list
    if names.any fun n => n.isArray || n.isObject then .error .internal else return names

def lastPosition (names : List Json) (name : String) : Option Nat :=
  (names.zipIdx.reverse.find? fun (n, _) => match n with
    | .str s => s == name
    | _ => false).map Prod.snd

def sourcesFrom (names : List Json) (members : Json.Members) :
    Except Failure (List (String × Source)) :=
  members.mapM fun (name, source) =>
    if source.isObject then .ok (name, ⟨lastPosition names name, source.getD "AST"⟩)
    else .error .internal

/-- The messages of an output: the one error, or the list of errors. -/
def messagesOf (output : Json) : Except Failure (List Json) :=
  let error := output.getD "error"
  let errors := output.getD "errors"
  if error.truthy then .ok [error]
  else if errors.truthy then itemsOf errors
  else .ok []

def Output.ofJson (output : Json) : Except Failure Output :=
  if !output.isObject then .error .internal
  else do
    let messages ← messagesOf output
    let contracts ← membersOf (output.getD "contracts") >>= contractsFrom []
    let names ← sourceNames (output.getD "sourceList")
    let sources ← membersOf (output.getD "sources") >>= sourcesFrom names
    let diagnostics ← readDiagnostics messages
    return ⟨diagnostics, contracts, sources⟩

/-- The metadata text of a contract: the optimizer flag and the seeds. -/
def metadataText (optimize : Bool) (seeds : List Json) : String :=
  Json.print Json.compact <| .obj [("settings", .obj [
    ("optimizer", .obj [("enabled", .bool optimize)]), ("nonDeterministicSeeds", .arr seeds)])]

def Code.grouped (code : Code) : Code :=
  { code with linkReferences := LinkReference.group code.linkReferences }

/-- The contract with the given metadata and with its libraries grouped by source. -/
def Contract.complete (metadata : String) (c : Contract) : Contract :=
  { c with
    metadata := .str metadata
    creation := c.creation.grouped
    deployed := c.deployed.grouped }

def Output.complete (metadata : String) (output : Output) : Output :=
  { output with
    contracts := output.contracts.map fun file =>
      (file.1, file.2.map fun c => (c.1, c.2.complete metadata)) }

/-- Read a legacy output and give every contract its metadata. -/
def normalize (output : Json) (optimize : Bool) (seeds : List Json) : Except Failure Output :=
  (Output.ofJson output).map (·.complete (metadataText optimize seeds))

end SolcDispatch.Legacy
