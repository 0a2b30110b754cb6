import TreeFeatures.Install.Discovery

/-!
# Requesting installs

Model of `InstallerGateway._dispatch`, which `install` and `install_many` call. `Gateway.dispatch`
has the languages installed that nobody installs yet, by one task for all of them; the others are
left to the tasks that they have. Whoever asked hears about the end of each.
-/

namespace TreeFeatures.Gateway

open Act

variable {σ : Type} (s : Surroundings σ)

/-- Create a task for languages: the end of `InstallerGateway._dispatch`. -/
def launch (languages : List String) : Act σ (Option TaskId) := do
  let id := (← state).loop.tasks.length
  update fun st =>
    { st with loop := st.loop.create languages, gateway := st.gateway.assign languages id }
  note .info .installer ("Installing grammars: " ++ ", ".intercalate languages)
  pure (some id)

/-- Have languages installed, and a callback told about the end of it (`InstallerGateway._dispatch`,
and `install_many`); the task of the first one, unless nothing can be installed. -/
def dispatch (languages : List String) (callback : Option Callback) :
    Act σ (Option TaskId) := do
  match requested languages with
  | [] => pure none
  | first :: others =>
    let wanted := first :: others
    if ← isPresent s then
      if (← state).loop.isRunning then
        update fun st => { st with gateway := st.gateway.listenAll callback wanted }
        let gateway := (← state).gateway
        match gateway.fresh wanted with
        | [] =>
          note .debug .installer ("Install already in flight for " ++ ", ".intercalate wanted)
          pure (Assoc.get? gateway.pending first)
        | fresh => launch fresh
      else
        note .warning .installer
          ("No running event loop, cannot install " ++ ", ".intercalate wanted)
        pure none
    else pure none

/-- Have one language installed (`InstallerGateway.install`). -/
def install (language : String) (callback : Option Callback) : Act σ (Option TaskId) :=
  dispatch s [language] callback

end TreeFeatures.Gateway
