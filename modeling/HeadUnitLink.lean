import HeadUnitLink.CommandLine.Folder
import HeadUnitLink.Main
import HeadUnitLink.Proofs.Engine.Delivery
import HeadUnitLink.Proofs.Stream.Reading
import HeadUnitLink.Proofs.Receiver.Reading
import HeadUnitLink.Proofs.Stream.Recovery
import HeadUnitLink.Proofs.Receiver.Damage
import HeadUnitLink.Proofs.Engine.TransportUnit
import HeadUnitLink.Proofs.Message.Restart
import HeadUnitLink.Proofs.Wire.Codec
import HeadUnitLink.Proofs.Dispatch.Progress
import HeadUnitLink.Proofs.Message.UnderWay
import HeadUnitLink.Proofs.Engine.Reception
import HeadUnitLink.Proofs.Dispatch.Shutdown
import HeadUnitLink.Proofs.Message.Interference
import HeadUnitLink.Proofs.Engine.Admission
import HeadUnitLink.Proofs.Receiver.Accounting
import HeadUnitLink.Proofs.Engine.Capacity
import HeadUnitLink.Proofs.Session.Lawful
import HeadUnitLink.Proofs.Engine.Arrival
import HeadUnitLink.Proofs.Engine.Sessions
import HeadUnitLink.Proofs.Session.Acknowledgement
import HeadUnitLink.Proofs.Session.History
import HeadUnitLink.Proofs.Engine.HashId
import HeadUnitLink.Proofs.Receiver.SkipLimit
import HeadUnitLink.Proofs.Stream.Cuts
import HeadUnitLink.Proofs.Engine.Requests
import HeadUnitLink.Proofs.Dispatch.Settling
import HeadUnitLink.Proofs.Stream.Writing
import HeadUnitLink.Proofs.Engine.OneMessage
import HeadUnitLink.Proofs.Capture.RoundTrip
import HeadUnitLink.Proofs.Capture.Accounting
import HeadUnitLink.Proofs.Capture.Places
import HeadUnitLink.Proofs.Stream.Calls
import HeadUnitLink.Proofs.Engine.Sending
import HeadUnitLink.Proofs.Message.Counters
import HeadUnitLink.Proofs.Message.Tally
import HeadUnitLink.Proofs.Dispatch.Draining
import HeadUnitLink.Proofs.Wire.Prefix
import HeadUnitLink.Proofs.Session.Padding
