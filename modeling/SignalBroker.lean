import SignalBroker.Decimal.Text
import SignalBroker.Main
import SignalBroker.Proofs.Broker.Partition
import SignalBroker.Proofs.Session.Confidentiality
import SignalBroker.Proofs.Session.Refusal
import SignalBroker.Proofs.Signal.Equality
import SignalBroker.Proofs.Store.Outflow
import SignalBroker.Proofs.Traffic.Building
import SignalBroker.Proofs.Traffic.HandOff
import SignalBroker.Proofs.Traffic.Notifying
import SignalBroker.Proofs.Session.Registering
import SignalBroker.Proofs.Session.Numbering
import SignalBroker.Proofs.Session.Isolation
import SignalBroker.Proofs.Broker.Likeness
import SignalBroker.Proofs.Session.Noninterference
import SignalBroker.Proofs.Broker.Filling
import SignalBroker.Proofs.Broker.Intake
import SignalBroker.Proofs.Broker.Standstill
import SignalBroker.Proofs.Json.Sorted
import SignalBroker.Proofs.Json.Records
import SignalBroker.Proofs.Session.Decoding
import SignalBroker.Proofs.Session.Attribution
import SignalBroker.Proofs.Signal.Conversion
import SignalBroker.Proofs.Traffic.Abreast
import SignalBroker.Proofs.Document.Saving
import SignalBroker.Proofs.Traffic.Readback
import SignalBroker.Proofs.Json.Legibility
import SignalBroker.Proofs.Json.Reparsing
import SignalBroker.Proofs.Document.Reloading
import SignalBroker.Proofs.Broker.Dispatching
import SignalBroker.Proofs.Store.Sequencing
import SignalBroker.Proofs.Store.InPlace
import SignalBroker.Proofs.Store.Faults
import SignalBroker.Proofs.Broker.Confluence
import SignalBroker.Proofs.Broker.Views
import SignalBroker.Proofs.Path.Suffix
import SignalBroker.Proofs.Broker.Resolution
import SignalBroker.Proofs.Access.Listing
import SignalBroker.Proofs.Adapter.Polling
import SignalBroker.Proofs.Adapter.Roles
import SignalBroker.Proofs.Signal.Positions
import SignalBroker.Proofs.Broker.Classifying
import SignalBroker.Proofs.Service.Reloading
import SignalBroker.Proofs.Adapter.Hundredths
import SignalBroker.Proofs.Adapter.Delays
import SignalBroker.Proofs.Vin
