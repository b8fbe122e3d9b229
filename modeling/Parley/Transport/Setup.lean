import Parley.Transport.Error

/-!
# Setting a connection up

Settings are validated before a connection is made. Its socket is then given the read timeout
and refuses one of no time at all.
-/

namespace Parley.Transport

/-- The settings are within bounds. -/
def validate (config : Config) : Except TransportError Unit :=
  config.validate.mapError .config

/-- A connected socket takes the settings. -/
def setUp (config : Config) : Except TransportError Unit := do
  validate config
  if config.readTimeout = some 0 then throw (.failed .zeroTimeout)

theorem validate_of_setUp {config : Config} (h : setUp config = .ok ()) :
    config.validate = .ok () := by
  cases hc : config.validate with
  | ok => rfl
  | error error =>
    rw [setUp, validate, hc] at h
    cases h

end Parley.Transport
