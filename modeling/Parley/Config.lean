/-!
# Connection settings

The settings that a server and a client apply to each of their connections. `validate` names
the first setting that is out of bounds; a read timeout is never out of bounds here.
-/

namespace Parley

/-- Settings of a connection. -/
structure Config where
  /-- Bytes held between the socket and the frames. -/
  bufferCapacity : Nat := 65536
  /-- Bytes of the largest frame body accepted or sent. -/
  maxFrameSize : UInt32 := 16777216
  /-- How long a socket read may take, in milliseconds or a finer unit; without it reads wait for
  ever. -/
  readTimeout : Option Nat := none
  deriving DecidableEq, Repr

/-- Why settings are refused. -/
inductive ConfigError
  | zeroCapacity
  | frameSize (size limit : UInt32)
  deriving DecidableEq, Repr

def ConfigError.message : ConfigError → String
  | zeroCapacity => "buffer capacity must be non-zero"
  | frameSize size limit =>
    s!"max frame size must be between 1 and {limit} bytes, got {size}"

namespace Config

/-- The largest frame size that settings may ask for. -/
def frameSizeLimit : UInt32 := 67108864

/-- Whether the settings are within bounds. -/
def validate (config : Config) : Except ConfigError Unit :=
  if config.bufferCapacity = 0 then .error .zeroCapacity
  else if config.maxFrameSize = 0 ∨ frameSizeLimit < config.maxFrameSize then
    .error (.frameSize config.maxFrameSize frameSizeLimit)
  else .ok ()

example : validate {} = .ok () := rfl

end Config

end Parley
