import Mathlib.Data.List.Infix
import SafeDecoder.Worker.World

/-! # The tasks of the workers

The functions behind the tasks, command by command. A loaded contract is a value
of its own: the columns a task sets are compared with it when they are written.
-/
namespace SafeDecoder.Worker
open Effects

abbrev Task := Proc Command Command.Answer PyError

def issue (c : Command) : Task c.Answer := Proc.perform c

/-- A version, a contract name and an address of the default deployments. -/
structure Deployment where
  version : String
  contractName : String
  contractAddress : String

/-- What the services are installed with: packages, settings and package data. -/
structure Installation where
  addresses : Addresses
  /-- The clients of a chain, by their sources: `enabled_clients`. -/
  enabledClients : Int → List ContractSource
  /-- `_get_default_deployments_by_version` -/
  deployments : List Deployment
  /-- `get_safe_contracts_abis`, `get_erc_abis`, `get_safe_abis` and `get_third_parties_abis` -/
  safeContractsAbis : List Json
  ercAbis : List Json
  safeAbis : List Json
  thirdPartiesAbis : List Json
  trustedForDelegateCall : List String := ["MultiSendCallOnly", "SignMessageLib", "SafeMigration"]
  maxDownloadRetries : ℕ := 90

namespace Contract

/-- `Contract.get_or_create` -/
def getOrCreate (address : Bytes) (chainId : Int) (values : ContractValues) :
    Task (ContractRow × Bool) :=
  catchOnly isIntegrityError
    (do
      let contract ← issue (.insertContract address chainId values)
      return (contract,true))
    fun e => do
      issue .rollback
      match ← issue (.selectContract address chainId) with
      | none => throw e
      | some contract => return (contract,false)

end Contract

namespace Abi

/-- `Abi.get_or_create_abi` -/
def getOrCreateAbi (abiJson : Json) (sourceId : ℕ) (relevance : Int) : Task (AbiRow × Bool) :=
  catchOnly isIntegrityError
    (do
      let row ← issue (.insertAbi abiJson sourceId relevance)
      return (row,true))
    fun e => do
      issue .rollback
      match ← issue (.selectAbi abiJson) with
      | none => throw e
      | some row => return (row,false)

end Abi

namespace AbiSource

/-- `AbiSource.get_or_create` -/
def getOrCreate (name url : String) : Task (AbiSourceRow × Bool) := do
  match ← issue (.selectAbiSource name url) with
  | some source => return (source,false)
  | none =>
    let source ← issue (.insertAbiSource name url)
    return (source,true)

end AbiSource

section ContractMetadataService

/-- `contract.fetch_retries += 1` and `contract.update()` -/
def recordFailedAttempt (contract : ContractRow) : Task Bool := do
  issue (.updateContract contract.key
    (ContractChanges.since contract { fetchRetries := some (contract.fetchRetries + 1) }))
  return false

/-- The columns that a stored ABI sets. -/
def metadataChanges (abiId : ℕ) (metadata : ContractMetadata) : ContractChanges where
  abiId := some abiId
  name := some metadata.name
  implementation := metadata.implementation.filter fun i => i ≠ nullAddress

/-- The end of `process_contract_metadata`. A rollback has expired the loaded
contract, so then every column that is set counts as changed. -/
def recordAbi (contract : ContractRow) (abi : AbiRow) (created : Bool)
    (metadata : ContractMetadata) : Task Bool := do
  let changes := metadataChanges abi.id metadata
  issue (.updateContract contract.key
    (if created then changes.since contract else changes))
  return true

/-- `process_contract_metadata` once the contract is there. -/
def processLoaded (m : EnhancedContractMetadata) (contract : ContractRow) : Task Bool :=
  match m.metadata with
  | none => recordFailedAttempt contract
  | some metadata =>
    match m.source with
    | none => recordFailedAttempt contract
    | some source => do
      match ← issue (.selectAbiSourceByName source.value) with
      | none => recordFailedAttempt contract
      | some row =>
        if metadata.abi.truthy then do
          let (abi,created) ← Abi.getOrCreateAbi metadata.abi row.id 0
          recordAbi contract abi created metadata
        else recordFailedAttempt contract

def processContractMetadata (m : EnhancedContractMetadata) : Task Bool := do
  let (contract,_) ← Contract.getOrCreate m.address m.chainId {}
  processLoaded m contract

/-- `except (OSError, EtherscanRateLimitError)`; a `TimeoutError` is an `OSError`. -/
def isClientFailure : PyError → Bool
  | .timeoutError => true
  | .other className => className = "OSError" || className = "EtherscanRateLimitError"
  | _ => false

/-- The loop of `get_contract_metadata` -/
def askClients (address : Bytes) (chainId : Int) :
    List ContractSource → Task EnhancedContractMetadata
  | [] => return ⟨address,none,none,chainId⟩
  | client :: rest => do
    let found ← catchOnly isClientFailure (issue (.fetch client address chainId))
      fun _ => return none
    match found with
    | some metadata => return ⟨address,some metadata,some client,chainId⟩
    | none => askClients address chainId rest

/-- `get_proxy_implementation_address` -/
def getProxyImplementationAddress (a : Addresses) (m : EnhancedContractMetadata) : Option String :=
  (m.metadata.bind fun metadata => metadata.implementation.filter fun i => i ≠ nullAddress).map
    a.toChecksum

/-- The value of `should_attempt_download` that the database row decides. -/
def refusedBy (contract : Option ContractRow) (maxRetries : ℕ) : Bool :=
  contract.any fun c => maxRetries < c.fetchRetries || c.abiId.isSome

end ContractMetadataService

section Tasks
variable (inst : Installation)

def getContractMetadata (address : Bytes) (chainId : Int) : Task EnhancedContractMetadata :=
  askClients address chainId (inst.enabledClients chainId)

/-- `should_attempt_download` caches a refusal and nothing else. -/
def shouldAttemptDownload (address : String) (chainId : Int) (maxRetries : ℕ) : Task Bool := do
  let cacheKey := RedisKey.shouldAttemptDownload address chainId maxRetries
  match ← issue (.redisGet cacheKey) with
  | some cached => return cached ≠ 0
  | none =>
    let contract ← issue (.selectContract (inst.addresses.toBytes address) chainId)
    if refusedBy contract maxRetries then do
      issue (.redisSet cacheKey 0)
      return false
    else return true

/-- The message for the implementation of a proxy, if it is one. -/
def sendImplementation (chainId : Int) : Option String → Task Unit
  | some implementation => issue (.send { address := implementation, chainId := chainId })
  | none => return ()

/-- The part of `get_contract_metadata_task` after the check. -/
def downloadContractMetadata (address : String) (chainId : Int) : Task Unit := do
  let metadata ← getContractMetadata inst (inst.addresses.toBytes address) chainId
  let result ← processContractMetadata metadata
  if result then issue (.redisDelete (.contract address.toLower))
  sendImplementation chainId (getProxyImplementationAddress inst.addresses metadata)

def getContractMetadataTask (m : Message) : Task Unit := do
  let shouldDownload ←
    if m.skipAttemptDownload then pure true
    else shouldAttemptDownload inst m.address m.chainId 0
  if shouldDownload then downloadContractMetadata inst m.address m.chainId
  else return ()

/-- A task that downloads the contracts of some rows without asking first. -/
def sendDownloads : List ContractRow → Task Unit
  | [] => return ()
  | c :: rest => do
    issue (.send
      { address := to0xHexStr c.address, chainId := c.chainId, skipAttemptDownload := true })
    sendDownloads rest

def getMissingContractMetadataTask : Task Unit := do
  sendDownloads (← issue (.selectContractsWithoutAbi inst.maxDownloadRetries))

def updateProxiesTask : Task Unit := do
  sendDownloads (← issue .selectProxyContracts)

end Tasks

section SafeContractsService

/-- `str.isspace` -/
def isSpace (c : Char) : Bool :=
  c.toNat ∈ [0x20,0x85,0xA0,0x1680,0x2028,0x2029,0x202F,0x205F,0x3000] ||
    (9 ≤ c.toNat && c.toNat ≤ 13) || (28 ≤ c.toNat && c.toNat ≤ 31) ||
    (0x2000 ≤ c.toNat && c.toNat ≤ 0x200A)

def strip (text : List Char) : List Char :=
  ((text.dropWhile isSpace).reverse.dropWhile isSpace).reverse

/-- `str.replace(pattern, "")`, with the number of characters still to be left out. -/
def withoutPattern (pattern : List Char) : ℕ → List Char → List Char
  | _, [] => []
  | skip + 1, _ :: rest => withoutPattern pattern skip rest
  | 0, c :: rest =>
    if pattern.isPrefixOf (c :: rest) then withoutPattern pattern (pattern.length - 1) rest
    else c :: withoutPattern pattern 0 rest

/-- `_generate_safe_contract_display_name`. Only `S`, `A`, `F` and `E` have one of
the letters of `safe` as their lower case. -/
def generateSafeContractDisplayName (contractName version : String) : String :=
  let name := strip (withoutPattern "Gnosis".toList 0 contractName.toList)
  if "safe".toList <:+: name.map Char.toLower then String.ofList name ++ " " ++ version
  else "Safe: " ++ String.ofList name ++ " " ++ version

variable (inst : Installation)

def Installation.isTrusted (contractName : String) : Bool :=
  contractName ∈ inst.trustedForDelegateCall

/-- The values that both functions below write for a deployment. -/
def Deployment.displayName (d : Deployment) : String :=
  generateSafeContractDisplayName d.contractName d.version

/-- `create_safe_contracts`: the number of rows created so far comes first. -/
def createSafeContracts (chainId : Int) : ℕ → List Deployment → Task ℕ
  | count, [] => return count
  | count, d :: rest => do
    let (_,created) ← Contract.getOrCreate (inst.addresses.toBytes d.contractAddress) chainId
      { name := some d.contractName
        displayName := some d.displayName
        trustedForDelegateCall := inst.isTrusted d.contractName }
    createSafeContracts chainId (if created then count + 1 else count) rest

def updateSafeContractsInfo : List Deployment → Task Unit
  | [] => return ()
  | d :: rest => do
    let _ ← issue (.updateContractInfo (inst.addresses.toBytes d.contractAddress) d.contractName
      d.displayName (inst.isTrusted d.contractName))
    updateSafeContractsInfo rest

def createSafeContractsTaskForNewChains (chainId : Int) : Task Unit := do
  let lockAcquired ← issue (.redisSetNx (.createSafeContracts chainId) 1)
  if lockAcquired then
    Proc.ensuring (do let _ ← createSafeContracts inst chainId 0 inst.deployments)
      (issue (.redisDelete (.createSafeContracts chainId)))
  else return ()

end SafeContractsService

section AbiService
variable (inst : Installation)

/-- `_store_abis_in_database` -/
def storeAbisInDatabase (relevance : Int) (source : AbiSourceRow) : List Json → Task Unit
  | [] => return ()
  | abiJson :: rest => do
    match ← issue (.selectAbi abiJson) with
    | some _ => storeAbisInDatabase relevance source rest
    | none => do
      let _ ← issue (.insertAbi abiJson source.id relevance)
      storeAbisInDatabase relevance source rest

def loadLocalAbisInDatabase : Task Unit := do
  let (source,_) ← AbiSource.getOrCreate "localstorage" "decoder-service"
  storeAbisInDatabase 100 source inst.safeContractsAbis
  storeAbisInDatabase 90 source (inst.ercAbis ++ inst.safeAbis)
  storeAbisInDatabase 50 source inst.thirdPartiesAbis

end AbiService
end SafeDecoder.Worker
