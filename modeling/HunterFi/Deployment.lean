import HunterFi.Payment

/-!
# Deployments

`deployment_manager.rs` : a strategy request charges the fee, stores a deployment record and
spawns `execute_deployment`, which creates a canister, installs the code, calls the
strategy's init method and registers the strategy. It is cut at its three awaits : `Stage`
is what it waits for, and a segment ends with the next `Stage` or with a result
(`Progress`). A failing stage refunds the fee (`handleDeploymentFailure`).
-/

set_option linter.unusedSectionVars false

namespace HunterFi

/-! ## Errors and results -/

/-- The variants of `DeploymentError`. -/
inductive DeploymentError
  | configError (message : String)
  | paymentError (error : PaymentError)
  | moduleNotFound (strategyType : StrategyType)
  | canisterCreationFailed (message : String)
  | codeInstallationFailed (message : String)
  | initializationFailed (message : String)
  | metadataError (message : String)
  | recordNotFound (message : String)
  | systemError (message : String)

/-- `DeploymentError::to_string`. -/
def DeploymentError.text : DeploymentError → String
  | configError m => "Configuration error: " ++ m
  | paymentError e => "Payment error: " ++ e.debug
  | moduleNotFound t => t.debug ++ " strategy WASM module not found"
  | canisterCreationFailed m => "Canister creation failed: " ++ m
  | codeInstallationFailed m => "Code installation failed: " ++ m
  | initializationFailed m => "Strategy initialization failed: " ++ m
  | metadataError m => "Metadata error: " ++ m
  | recordNotFound m => "Record not found: " ++ m
  | systemError m => "System error: " ++ m

/-- What an execution returns. -/
inductive DeploymentResult
  | success (canisterId : Principal)
  | failure (message : String)
  deriving DecidableEq

/-- The code `get_embedded_wasm_module` returns : the compiled strategy or the empty
module that stands for the strategies not implemented yet. -/
inductive WasmCode
  | selfHedging
  | mockHeader
  deriving DecidableEq

/-- A call of a strategy's init method. -/
structure InitCall where
  canisterId : Principal
  method : String
  owner : Principal
  config : Config
  deriving DecidableEq

/-- What a running `execute_deployment` waits for. -/
inductive Stage
  | createCanister
  | installCode (canisterId : Principal)
  | initStrategy (call : InitCall)
  deriving DecidableEq

/-- How a segment of `execute_deployment` ends : at the next await, with the record read at
the start, or with a result. -/
inductive Progress
  | awaiting (record : DeploymentRecord) (stage : Stage)
  | returned (result : Except String DeploymentResult)

/-- The cycles a new canister is given. -/
def creationCycles : ℕ :=
  40000000000 + 60000000000

/-- `ryjl3-tyaaa-aaaaa-aaaba-cai`, the ICP ledger. -/
def icpLedgerCanister : Principal :=
  ⟨[0, 0, 0, 0, 0, 0, 0, 2, 1, 1], by decide⟩

example : icpLedgerCanister.toText = "ryjl3-tyaaa-aaaaa-aaaba-cai" := by decide +kernel

namespace Deployment

/-- `get_embedded_wasm_module` : the code of the self-hedging strategy, a mere header for others. -/
def getEmbeddedWasmModule : StrategyType → Option WasmCode
  | .selfHedging => some .selfHedging
  | .dollarCostAveraging => some .mockHeader
  | .valueAveraging => some .mockHeader
  | .fixedBalance => some .mockHeader
  | .limitOrder => some .mockHeader

/-! ## The request -/

/-- `create_deployment_record`, which fails if the configuration does not encode. -/
def createDeploymentRecord (P : Platform) (env : Env) (deploymentId : String)
    (strategyType : StrategyType) (owner : Principal) (fee : ℕ) (config : Config) :
    Except DeploymentError DeploymentRecord :=
  match P.encodeOne config with
  | .error e => .error (.configError ("Failed to serialize config: " ++ e))
  | .ok configBytes =>
    .ok {
      deploymentId := deploymentId
      strategyType := strategyType
      owner := owner
      feeAmount := fee
      requestTime := env.time
      status := .paymentReceived
      canisterId := none
      configData := configBytes
      errorMessage := none
      lastUpdated := env.time }

/-- `create_strategy_request` up to the point where it spawns `execute_deployment`, which it
does exactly when it returns `ok`. -/
def createStrategyRequest (P : Platform) (env : Env) (f : Factory) (config : Config) :
    Except String DeploymentRequest × Factory :=
  let owner := env.caller
  let fee := f.getFee
  match config.validate with
  | .error e => (.error (DeploymentError.configError e).text, f)
  | .ok () =>
    let strategyType := config.getStrategyType
    let wasm := getEmbeddedWasmModule strategyType
    if wasm.isNone || strategyType ≠ .selfHedging then
      (.error (DeploymentError.moduleNotFound strategyType).text, f)
    else
      match Payment.processBalancePayment P env f owner fee
          ("Deployment fee for " ++ strategyType.debug ++ " strategy") with
      | (.error e, f) => (.error (DeploymentError.paymentError e).text, f)
      | (.ok (), f) =>
        let (deploymentId, f) := f.generateDeploymentId env
        match createDeploymentRecord P env deploymentId strategyType owner fee config with
        | .error e => (.error e.text, f)
        | .ok record =>
          (.ok ⟨deploymentId, fee, strategyType⟩, f.storeDeploymentRecord record)

/-! ## The execution -/

/-- `handle_deployment_failure`. A refund that fails is dropped. -/
def handleDeploymentFailure (P : Platform) (env : Env) (f : Factory) (deploymentId : String)
    (canisterId : Option Principal) (errorMessage : String) :
    Except String DeploymentResult × Factory :=
  match f.updateDeploymentStatus env deploymentId .deploymentFailed canisterId
      (some errorMessage) with
  | .error e => (.error ("Failed to update deployment status: " ++ e), f)
  | .ok f =>
    match f.getDeploymentRecord deploymentId with
    | none => (.error ("Deployment record not found for ID: " ++ deploymentId), f)
    | some record =>
      let f := (Payment.processBalanceRefund P env f record.owner record.feeAmount
        deploymentId).2
      (.ok (.failure errorMessage), f)

/-- A failing stage. -/
def fail (P : Platform) (env : Env) (f : Factory) (deploymentId : String)
    (canisterId : Option Principal) (error : DeploymentError) : Progress × Factory :=
  let (result, f) := handleDeploymentFailure P env f deploymentId canisterId error.text
  (.returned result, f)

/-- `execute_deployment` up to the `create_canister` call. -/
def executeDeployment (P : Platform) (env : Env) (f : Factory) (deploymentId : String) :
    Progress × Factory :=
  match f.getDeploymentRecord deploymentId with
  | none =>
    (.returned (.error (DeploymentError.recordNotFound
      ("Deployment record not found for ID: " ++ deploymentId)).text), f)
  | some record =>
    if env.cycles < creationCycles then
      fail P env f deploymentId none (.canisterCreationFailed
        ("Factory canister balance insufficient to create new canister. Current balance: " ++
          toString env.cycles ++ " cycles, required: " ++ toString creationCycles ++ " cycles"))
    else (.awaiting record .createCanister, f)

/-- `Error code: {:?}, message: {}`. -/
def callError (code : RejectionCode) (message : String) : String :=
  "Error code: " ++ code.debug ++ ", message: " ++ message

/-- `execute_deployment` from the answer of `create_canister` to the `install_code` call. -/
def afterCreateCanister (P : Platform) (env : Env) (f : Factory) (deploymentId : String)
    (record : DeploymentRecord) (result : CallResult Principal) : Progress × Factory :=
  match result with
  | .error code message =>
    fail P env f deploymentId none (.canisterCreationFailed (callError code message))
  | .ok canisterId =>
    match f.updateDeploymentStatus env deploymentId .canisterCreated (some canisterId) none with
    | .error e => (.returned (.error (DeploymentError.systemError e).text), f)
    | .ok f =>
      match getEmbeddedWasmModule record.strategyType with
      | none =>
        fail P env f deploymentId (some canisterId) (.moduleNotFound record.strategyType)
      | some _ =>
        if record.strategyType ≠ .selfHedging then
          fail P env f deploymentId (some canisterId) (.moduleNotFound record.strategyType)
        else (.awaiting record (.installCode canisterId), f)

/-- `initialize_strategy` up to its call : the decoded configuration and the method. -/
def initializeStrategy (P : Platform) (canisterId owner : Principal)
    (strategyType : StrategyType) (configData : List UInt8) : Except String InitCall :=
  match strategyType with
  | .dollarCostAveraging =>
    match P.decodeDCA configData with
    | .error e => .error ("Failed to decode DCA config: " ++ e)
    | .ok config => .ok ⟨canisterId, "init_dca", owner, .dca config⟩
  | .valueAveraging =>
    match P.decodeValueAvg configData with
    | .error e => .error ("Failed to decode Value Averaging config: " ++ e)
    | .ok config => .ok ⟨canisterId, "init_value_avg", owner, .valueAvg config⟩
  | .fixedBalance =>
    match P.decodeFixedBalance configData with
    | .error e => .error ("Failed to decode Fixed Balance config: " ++ e)
    | .ok config => .ok ⟨canisterId, "init_fixed_balance", owner, .fixedBalance config⟩
  | .limitOrder =>
    match P.decodeLimitOrder configData with
    | .error e => .error ("Failed to decode Limit Order config: " ++ e)
    | .ok config => .ok ⟨canisterId, "init_limit_order", owner, .limitOrder config⟩
  | .selfHedging =>
    match P.decodeSelfHedging configData with
    | .error e => .error ("Failed to decode Self Hedging config: " ++ e)
    | .ok config => .ok ⟨canisterId, "init_self_hedging", owner, .selfHedging config⟩

/-- `execute_deployment` from the answer of `install_code` to the call of the init method. -/
def afterInstallCode (P : Platform) (env : Env) (f : Factory) (deploymentId : String)
    (record : DeploymentRecord) (canisterId : Principal) (result : CallResult Unit) :
    Progress × Factory :=
  match result with
  | .error code message =>
    fail P env f deploymentId (some canisterId) (.codeInstallationFailed (callError code message))
  | .ok () =>
    match f.updateDeploymentStatus env deploymentId .codeInstalled (some canisterId) none with
    | .error e => (.returned (.error (DeploymentError.systemError e).text), f)
    | .ok f =>
      match initializeStrategy P canisterId record.owner record.strategyType
          record.configData with
      | .error e => fail P env f deploymentId (some canisterId) (.initializationFailed e)
      | .ok call => (.awaiting record (.initStrategy call), f)

/-- The metadata of a strategy that trades one pair. -/
def pairMetadata (env : Env) (record : DeploymentRecord) (canisterId : Principal)
    (exchange : Exchange) (baseToken quoteToken : TokenMetadata) : StrategyMetadata where
  canisterId := canisterId
  strategyType := record.strategyType
  owner := record.owner
  createdAt := env.time
  status := .created
  exchange := exchange
  tradingPair := ⟨baseToken, quoteToken⟩

/-- `create_strategy_metadata`. -/
def createStrategyMetadata (P : Platform) (env : Env) (record : DeploymentRecord)
    (canisterId : Principal) : Except String StrategyMetadata :=
  match record.strategyType with
  | .dollarCostAveraging =>
    match P.decodeDCA record.configData with
    | .error e => .error ("Failed to decode DCA config: " ++ e)
    | .ok c => .ok (pairMetadata env record canisterId c.exchange c.baseToken c.quoteToken)
  | .valueAveraging =>
    match P.decodeValueAvg record.configData with
    | .error e => .error ("Failed to decode Value Averaging config: " ++ e)
    | .ok c => .ok (pairMetadata env record canisterId c.exchange c.baseToken c.quoteToken)
  | .fixedBalance =>
    match P.decodeFixedBalance record.configData with
    | .error e => .error ("Failed to decode Fixed Balance config: " ++ e)
    | .ok c =>
      match c.tokenAllocations with
      | [] => .error "Fixed Balance strategy must have at least one token allocation"
      | (baseToken, _) :: _ =>
        .ok (pairMetadata env record canisterId c.exchange baseToken
          ⟨icpLedgerCanister, "ICP", 8, "", 0⟩)
  | .limitOrder =>
    match P.decodeLimitOrder record.configData with
    | .error e => .error ("Failed to decode Limit Order config: " ++ e)
    | .ok c => .ok (pairMetadata env record canisterId c.exchange c.baseToken c.quoteToken)
  | .selfHedging =>
    match P.decodeSelfHedging record.configData with
    | .error e => .error ("Failed to decode Self Hedging config: " ++ e)
    | .ok c =>
      .ok (pairMetadata env record canisterId c.exchange c.tradingPair.baseToken
        c.tradingPair.quoteToken)

/-- `execute_deployment` from the answer of the init method to its end. The reply is decoded
to `()`, so its value is not looked at. -/
def afterInitStrategy (P : Platform) (env : Env) (f : Factory) (deploymentId : String)
    (record : DeploymentRecord) (canisterId : Principal) (result : CallResult Unit) :
    Progress × Factory :=
  match result with
  | .error code message =>
    fail P env f deploymentId (some canisterId) (.initializationFailed
      ("Failed to initialize strategy: code=" ++ code.debug ++ ", message=" ++ message))
  | .ok () =>
    match f.updateDeploymentStatus env deploymentId .initialized (some canisterId) none with
    | .error e => (.returned (.error (DeploymentError.systemError e).text), f)
    | .ok f =>
      match createStrategyMetadata P env record canisterId with
      | .error e => fail P env f deploymentId (some canisterId) (.metadataError e)
      | .ok metadata =>
        let f := f.storeStrategyMetadata metadata
        match f.updateDeploymentStatus env deploymentId .deployed (some canisterId) none with
        | .error e => (.returned (.error (DeploymentError.systemError e).text), f)
        | .ok f => (.returned (.ok (.success canisterId)), f)

/-- What the task spawned by `create_strategy_request` does with the result of
`execute_deployment` : after an error it refunds the fee, if the record is still there. -/
def spawnedReturn (P : Platform) (env : Env) (f : Factory) (deploymentId : String)
    (result : Except String DeploymentResult) : Factory :=
  match result with
  | .ok _ => f
  | .error _ =>
    match f.getDeploymentRecord deploymentId with
    | none => f
    | some record =>
      (Payment.processBalanceRefund P env f record.owner record.feeAmount deploymentId).2

end Deployment

end HunterFi
