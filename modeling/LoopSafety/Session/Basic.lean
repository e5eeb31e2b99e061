import LoopSafety.Session.Check

/-! Sessions: the analysis of one region while its constants change. -/
namespace LoopSafety

structure Session where
  context : Context
  /-- How often bounds have been rebuilt. -/
  retries : Nat := 0

namespace Session

def new (root : Term) (config : Config) (constants : Constants) : Session :=
  { context := ({ config, constants } : Context).register root }

/-- Build all bounds anew and store the verdicts. -/
def rebuild (p : Program) : Analysis Unit := do
  modify Context.reset
  Context.buildAll p
  Context.checkAll p false

/-- Run steps on the context of a session. -/
def onContext {α : Type} (step : Analysis α) (s : Session) : Except Error α × Session :=
  let (result, context) := step.run.run s.context
  (result, { s with context })

def prepare (p : Program) (s : Session) : Except Error Unit × Session := onContext (rebuild p) s

/-- Check that no verdict regressed, rebuilding at most `attempts` times. -/
def verify (p : Program) : Nat → Session → Except Error Unit × Session
  | attempts, s =>
    match onContext (Context.checkAll p true) s with
    | (.error .boundInvalidated, s) =>
      match attempts with
      | 0 => (.error .boundInvalidated, s)
      | attempts + 1 =>
        match prepare p { s with retries := s.retries + 1 } with
        | (.ok (), s) => verify p attempts s
        | failed => failed
    | result => result

/-- Change constants and verify, with what is left of the retry limit. -/
def instantiate (p : Program) (constants : Constants) (s : Session) : Except Error Unit × Session :=
  let context := { s.context with constants := s.context.constants.insertAll constants.entries }
  verify p (s.context.config.retryLimit.toNat - s.retries) { s with context }

end Session

end LoopSafety
