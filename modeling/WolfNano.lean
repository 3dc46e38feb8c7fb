import WolfNano.Authentication
import WolfNano.FramingIndependence
import WolfNano.PskAgreement
import WolfNano.Parsers
import WolfNano.ChainFacts
import WolfNano.OfferedSchemes
import WolfNano.RecordLimit
import WolfNano.SessionKeys
import WolfNano.FailedConnect
import WolfNano.FatalErrors
import WolfNano.HelloRecord
import WolfNano.NonceReuse
import WolfNano.KeyBoundaries
import WolfNano.StreamIntegrity
import WolfNano.Synchronisation
import WolfNano.ServerName
import WolfNano.HelloMemory
import WolfNano.Binder
import WolfNano.PostHandshake
import WolfNano.RecvOutput
import WolfNano.SplitTickets
import WolfNano.RecvRecord
import WolfNano.FlightMemory
import WolfNano.PskFlightMemory
import WolfNano.CertFlightMemory
import WolfNano.WireCalls
import WolfNano.MsgRoundTrip
import WolfNano.HybridFacts
import WolfNano.CertScratch
import WolfNano.Segmentation
import WolfNano.Conversation
import WolfNano.WireImage
import WolfNano.Alerts
import WolfNano.Matching
import WolfNano.KeyShareFacts
import WolfNano.EntryPoints
import WolfNano.SessionScratch
import WolfNano.Confidentiality
