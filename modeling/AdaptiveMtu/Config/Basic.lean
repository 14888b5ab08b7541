/-
The configuration of an engine, and when it is acceptable.

Every field has a default. `validate` names the first thing that is wrong; an engine that is given a
configuration without asking repairs the numbers instead.
-/
import AdaptiveMtu.Engine.Discretization
import AdaptiveMtu.Model.Kind

namespace AdaptiveMtu

/-- How an engine is set up. -/
structure EngineConfig where
  model : ModelKind
  minMtu : Nat
  maxMtu : Nat
  /-- The MTU to serve when a model fails and nothing better is known. -/
  defaultMtu : Nat
  /-- How many predictions are remembered. -/
  historyCapacity : Nat
  /-- The time between two predictions in milliseconds. -/
  intervalMs : Nat
  discretization : Discretization
  /-- The override to begin with. -/
  initialOverride : Option Nat

namespace EngineConfig

/-- The configuration of an engine that is told nothing. -/
def standard : EngineConfig where
  model := .standard
  minMtu := smallestMtu
  maxMtu := largestMtu
  defaultMtu := fallbackMtu
  historyCapacity := 1000
  intervalMs := 30000
  discretization := .nearestHundred
  initialOverride := none

/-- The bounds of an engine, repaired if need be. -/
def bounds (c : EngineConfig) : MtuBounds := .ofRange c.minMtu c.maxMtu

/-- Whether a configuration is acceptable, and if not, what is wrong first. -/
def validate (c : EngineConfig) : Except ConfigFault Unit :=
  if c.minMtu < smallestMtu || largestMtu < c.maxMtu then
    .error (.boundsOutside c.minMtu c.maxMtu)
  else if c.maxMtu < c.minMtu then .error (.boundsCrossed c.minMtu c.maxMtu)
  else if c.defaultMtu < c.minMtu || c.maxMtu < c.defaultMtu then
    .error (.defaultOutside c.defaultMtu c.minMtu c.maxMtu)
  else if c.historyCapacity = 0 then .error .noCapacity
  else if c.intervalMs = 0 then .error .noInterval
  else .ok ()

end EngineConfig

end AdaptiveMtu
