import SignalBroker.Broker.Turns
import SignalBroker.Service.CommandLine
import Std.Time.DateTime.Timestamp

namespace SignalBroker.Program

def readInto (files : Files) (name : String) : IO Files := do
  try
    return files.put name (← IO.FS.readFile name)
  catch _ =>
    return files

def readFiles (arguments : List String) : IO Files := do
  match Command.ofArguments none arguments with
  | .serve (some path) =>
    let files ← readInto .empty path
    match Config.ofFile files path with
    | .ok config => config.documents.foldlM readInto files
    | .error _ => return files
  | _ => return .empty

def surroundings (arguments : List String) : IO Surroundings := do
  return ⟨← IO.getEnv "HOST", ← IO.getEnv "PORT", ← readFiles arguments⟩

def now : IO Int := do
  return (← Std.Time.Timestamp.now).toMillisecondsSinceUnixEpoch.val

def writeBack (documents : List String) (old new : Files) : IO Unit := do
  for name in documents do
    match old.read name, new.read name with
    | .ok before, .ok after =>
      if before ≠ after then
        try IO.FS.writeFile name after catch _ => pure ()
    | _, _ => pure ()

/-- Answer frames until the input ends. Time passes for the broker between them. -/
partial def converse (input output : IO.FS.Stream) (documents : List String) (session : Session)
    (broker : Broker Adapter) : IO Unit := do
  let line ← input.getLine
  if line.isEmpty then return
  let time ← now
  let broker := broker.advance (time - broker.clock.millis).toNat
  let broker := { broker with clock := Clock.ofMillis time }
  let (frames, session, next) := session.exchange broker (.text line)
  for frame in frames do
    output.putStrLn frame.wire
  output.flush
  writeBack documents broker.files next.files
  converse input output documents session next

end SignalBroker.Program

open SignalBroker in
def main (arguments : List String) : IO UInt32 := do
  let clock := Clock.ofMillis (← Program.now)
  match Start.run (fun _ _ => none) clock (← Program.surroundings arguments) arguments with
  | .exit code message =>
    IO.eprint message
    return UInt32.ofNat code
  | .serving service =>
    let (session, broker) := Session.start service.broker
    Program.converse (← IO.getStdin) (← IO.getStdout) service.config.documents session broker
    return 0
