import Workflow.Block.Limits
import Workflow.Settings.Count
import Workflow.Text.Uppercase

/-!
# Settings

The settings come from named variables, any of which may be unset.
-/

namespace Workflow

/-- The settings of the editor. -/
structure Settings where
  maxIterations : Int
  scanLimit : Int
  logLevel : String
  corsOrigins : List String
  deriving DecidableEq, Repr

namespace Settings

/-- The variable for the steps of a search. -/
def maxIterationsVariable : String := "FLOWGRAPH_MAX_ITERATIONS"

/-- The variable for the steps of collecting a block. -/
def scanLimitVariable : String := "FLOWGRAPH_BLOCK_SCAN_LIMIT"

/-- The variable for the level of logging. -/
def logLevelVariable : String := "FLOWGRAPH_LOG_LEVEL"

/-- The variable for the origins that may send requests. -/
def corsOriginsVariable : String := "CORS_ORIGINS"

/-- The parts of a text between commas. -/
def commaParts (text : String) : List String := text.splitOn ","

/-- The settings that variables give. -/
def ofVariables (lookup : String → Option String) : Settings :=
  let standard : Limits := {}
  { maxIterations := Count.ofSetting standard.maxIterations (lookup maxIterationsVariable)
    scanLimit := Count.ofSetting standard.scanLimit (lookup scanLimitVariable)
    logLevel := Text.upper ((lookup logLevelVariable).getD "WARNING")
    corsOrigins := commaParts ((lookup corsOriginsVariable).getD "*") }

/-- The limits that the settings put on searches. -/
def limits (settings : Settings) : Limits := ⟨settings.maxIterations, settings.scanLimit⟩

/-- The settings always let the collection of a block take a step. -/
theorem scanLimit_ofVariables_pos (lookup : String → Option String) :
    0 < (ofVariables lookup).scanLimit :=
  Count.ofSetting_pos (by decide) _

end Settings

end Workflow
