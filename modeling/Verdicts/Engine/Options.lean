/-
The options that an engine is run with, and the argument list that spells them.
-/
import Verdicts.Text.Decimal

namespace Verdicts

/-- Options of the engine; what is not chosen is left to the engine. -/
structure EngineOptions where
  /-- Seconds after which the engine gives up. -/
  timeout : Option Nat := none
  solver : Option String := none
  logic : Option String := none
  /-- Modules of the engine to run. -/
  enabled : List String := []
  disabled : List String := []
  compositional : Option Bool := none
  modular : Option Bool := none
  /-- The component to verify. -/
  top : Option String := none
  /-- Arguments passed on as they are. -/
  extra : List String := []
  deriving DecidableEq, Repr, Inhabited

namespace EngineOptions

/-- Choose a timeout in milliseconds. It is cut to whole seconds, and to one at least, since an engine
does not take zero. -/
def withTimeout (milliseconds : Nat) (o : EngineOptions) : EngineOptions :=
  { o with timeout := some (max 1 (milliseconds / 1000)) }

def withSolver (name : String) (o : EngineOptions) : EngineOptions :=
  { o with solver := some name }

def withLogic (name : String) (o : EngineOptions) : EngineOptions :=
  { o with logic := some name }

/-- Enable one more module. -/
def enable (module : String) (o : EngineOptions) : EngineOptions :=
  { o with enabled := o.enabled ++ [module] }

/-- Disable one more module. -/
def disable (module : String) (o : EngineOptions) : EngineOptions :=
  { o with disabled := o.disabled ++ [module] }

def withCompositional (on : Bool) (o : EngineOptions) : EngineOptions :=
  { o with compositional := some on }

def withModular (on : Bool) (o : EngineOptions) : EngineOptions :=
  { o with modular := some on }

def withTop (component : String) (o : EngineOptions) : EngineOptions :=
  { o with top := some component }

/-- Pass on one more argument. -/
def arg (raw : String) (o : EngineOptions) : EngineOptions :=
  { o with extra := o.extra ++ [raw] }

/-! ## The argument list -/

/-- The argument that makes the engine write records. -/
def recordsFlag : String := "-json"

/-- A flag and its value, if there is one. -/
def flag (name : String) (value : Option String) : List String :=
  match value with
  | some value => [name, value]
  | none => []

/-- A flag for each of several values. -/
def flags (name : String) (values : List String) : List String :=
  values.flatMap fun value => [name, value]

/-- The text of a truth value. -/
def boolText (on : Bool) : String := if on then "true" else "false"

/-- The argument list: the request for records first, then the chosen options in a fixed order, and
last what is passed on. -/
def toArgs (o : EngineOptions) : List String :=
  [recordsFlag]
    ++ flag "--timeout" (o.timeout.map Nat.repr)
    ++ flag "--smt_solver" o.solver
    ++ flag "--smt_logic" o.logic
    ++ flags "--enable" o.enabled
    ++ flags "--disable" o.disabled
    ++ flag "--compositional" (o.compositional.map boolText)
    ++ flag "--modular" (o.modular.map boolText)
    ++ flag "--lus_main" o.top
    ++ o.extra

end EngineOptions

end Verdicts
