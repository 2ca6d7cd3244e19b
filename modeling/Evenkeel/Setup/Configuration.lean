import Evenkeel.Application.Interactors
import Evenkeel.Infrastructure.RiskAssessment

/-!
# Configuration

`setup/config.py` and the providers of `setup/ioc/providers` that turn it into policy, as far
as movements go: which adapter assesses them, and what the interactors are told.

- `Settings`: what the loader accepts
- `riskAssessment`, `moveMoneySettings`, `movementSettings`: the composition root
-/

namespace Evenkeel.Setup

open Evenkeel.Application Evenkeel.Effects Evenkeel.Infrastructure Evenkeel.Python

/-! ## Sections -/

def allowAllRisk : String := "allow-all"

def httpRisk : String := "http"

/-- As far as the transport's policy is made of it. -/
structure OutboundHttpConfig where
  totalTimeoutMs : ℤ := 800
  connectTimeoutMs : ℤ := 200
  readTimeoutMs : ℤ := 700
  budgetMs : ℤ := 1500
  maxAttempts : ℤ := 2
  backoffBaseMs : ℤ := 50
  backoffMaxMs : ℤ := 400
  maxResponseBytes : ℤ := 64 * 1024
  bulkheadLimit : ℤ := 32
  bulkheadWaitMs : ℤ := 0

/-- The last field is the validator `_http_needs_a_destination`. -/
structure RiskConfig where
  provider : String := allowAllRisk
  baseUrl : String := ""
  path : String := "/decisions"
  failOpen : Bool := false
  http : OutboundHttpConfig := {}
  httpNeedsADestination : provider = httpRisk → baseUrl ≠ "" := by decide

structure MovementPolicyConfig where
  rateLimitEnabled : Bool := true
  rateLimitLimit : ℤ := 30
  rateLimitWindowSeconds : Python.Binary64 := 60
  riskFailOpen : Bool := false

/-- The sections that movements depend on. -/
structure Settings where
  risk : RiskConfig := {}
  movements : MovementPolicyConfig := {}

/-! ## The composition root -/

/-- `AllowAllRiskAssessment.assess`, which asks nobody. -/
def AllowAllRiskAssessment.assess (_check : RiskCheck) : WireM RiskDecision :=
  return ⟨.allowed, "no provider configured", ""⟩

/-- The policy that `risk_assessment` makes of the section, and which says nothing of leases. -/
def OutboundHttpConfig.transportPolicy (http : OutboundHttpConfig) : TransportPolicy where
  service := "risk"
  totalTimeoutMs := http.totalTimeoutMs
  connectTimeoutMs := http.connectTimeoutMs
  readTimeoutMs := http.readTimeoutMs
  budgetMs := http.budgetMs
  maxAttempts := http.maxAttempts
  backoffBaseMs := http.backoffBaseMs
  backoffMaxMs := http.backoffMaxMs
  maxResponseBytes := http.maxResponseBytes
  bulkheadLimit := http.bulkheadLimit
  bulkheadWaitMs := http.bulkheadWaitMs

/-- `risk_assessment`: the adapter that is wired, by what it does for a check. -/
def riskAssessment (py : Interpreter) (config : RiskConfig) (check : RiskCheck) :
    WireM RiskDecision :=
  if config.provider ≠ httpRisk then AllowAllRiskAssessment.assess check
  else assess py config.http.transportPolicy config.baseUrl config.path check

/-- `WalletProvider.movement_settings`. -/
def movementSettings : WalletMovementSettings := {}

/-- `WalletProvider.move_money_settings`. -/
def moveMoneySettings (config : MovementPolicyConfig) : MoveMoneySettings where
  rateLimitEnabled := config.rateLimitEnabled
  rateLimitLimit := config.rateLimitLimit
  rateLimitWindowSeconds := config.rateLimitWindowSeconds
  riskFailOpen := config.riskFailOpen

end Evenkeel.Setup
