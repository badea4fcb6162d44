import SignalBroker.Service.Config

namespace SignalBroker.Config

def gauge (path : String) (min max : Float) : Json :=
  .object [("kind", .text "number"), ("max", .ofFloat max),
    ("min", .ofFloat min), ("path", .text path), ("readOnly", .bool true)]

def switch (path : String) (initial : Json) : Json :=
  .object [("initial", initial), ("kind", .text "fixed"), ("path", .text path)]

def vehicle : AdapterSpec where
  kind := "simulator"
  name := "vehicle"
  config := .object [
    ("period", .ofNat 1000), ("seed", .ofNat 42),
    ("signals", .array [
      gauge "Signal.Vehicle.Speed" 0.0 130.0,
      gauge "Signal.Cabin.Temperature" 18.0 26.0]),
    ("vinPath", .text "Attribute.Vehicle.VIN")]

def body : AdapterSpec where
  kind := "simulator"
  name := "body"
  config := .object [
    ("seed", .ofNat 7),
    ("signals", .array [
      switch "Signal.Body.Trunk.IsOpen" (.bool false),
      switch "Signal.Body.Trunk.IsLocked" (.bool true),
      switch "Signal.Cabin.Door.Row1.Left.IsLocked" (.bool true),
      switch "Signal.Cabin.Door.Row1.Right.IsLocked" (.bool true),
      switch "Signal.Cabin.Door.Row1.Left.Window.Position" (.ofNat 0),
      switch "Signal.Cabin.Door.Row1.Right.Window.Position" (.ofNat 0)])]

def builtin : Config where
  name := "Simulated Vehicle"
  server := .default
  permissions := .table PermissionSettings.defaultTtl (.ofList [
    ("driver", .ofList [
      ("Signal.Body.*", .readWrite), ("Signal.Cabin.*", .readWrite), ("Signal.Vehicle.*", .read)]),
    ("passenger", .ofList [("Signal.Cabin.*", .read)])])
  adapters := [vehicle, body]

end SignalBroker.Config
