namespace SignalBroker

inductive AdapterError where
  | pathNotFound (path : String)
  | readOnly (path : String)
  | unavailable (detail : String)
  | invalidConfig (detail : String)
  deriving DecidableEq, Repr

def AdapterError.message : AdapterError → String
  | .pathNotFound path => "path not found: " ++ path
  | .readOnly path => "path is read-only: " ++ path
  | .unavailable detail => "adapter unavailable: " ++ detail
  | .invalidConfig detail => "invalid adapter config: " ++ detail

end SignalBroker
