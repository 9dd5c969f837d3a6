import Depot.Bytes
import Depot.Text.Utf8
import Depot.Text.Blank
import Depot.Text.Decimal
import Depot.Text.Ascii
import Depot.Scanner
import Depot.Log
import Depot.Fault
import Depot.StopFlag
import Depot.Z85
import Depot.Digest
import Depot.Resp.Value
import Depot.Resp.Command
import Depot.Resp.Decoder
import Depot.Store.Basic
import Depot.Store.Volatile
import Depot.Store.Dialogue
import Depot.Store.Canned
import Depot.Address
import Depot.Http.Status
import Depot.Http.Method
import Depot.Http.Target
import Depot.Http.Fields
import Depot.Http.Message
import Depot.Http.Syntax
import Depot.Http.Head
import Depot.Http.Decoder
import Depot.Http.Reply
import Depot.Http.Encoder
import Depot.Http.Request
import Depot.Http.Intake
import Depot.Http.Block
import Depot.Http.Connection
import Depot.Options
import Depot.Endpoint.Basic
import Depot.Endpoint.Object
import Depot.Endpoint.OptionList
import Depot.Quota
import Depot.Route.Timing
import Depot.Route.Table
import Depot.Route.Answer
import Depot.Gateway
import Depot.Link
import Depot.Link.Script
import Depot.Tls.Base64
import Depot.Tls.Pem
import Depot.Tls.Material
import Depot.StoreAddress
import Depot.Host
import Depot.Listener
import Depot.CommandLine
import Depot.Setup
import Depot.Operation
import Depot.Program
import Depot.Main
import Depot.Link.Backed
import Depot.Host.Isolated
import Depot.Proofs.Http.HeadSyntax
import Depot.Proofs.Http.HeadReading
import Depot.Proofs.Http.HeadGrammar
import Depot.Proofs.Http.Decoding
import Depot.Proofs.Http.HeadRendering
import Depot.Proofs.Http.HeadLimits
import Depot.Proofs.Steps
import Depot.Proofs.Text.Decimal
import Depot.Proofs.Text.Integer
import Depot.Proofs.Http.Fields
import Depot.Proofs.Http.BodyLengths
import Depot.Proofs.Http.Requests
import Depot.Proofs.Http.Session
import Depot.Proofs.Http.Serving
import Depot.Proofs.Http.Framing
import Depot.Proofs.Http.Bodies
import Depot.Proofs.Http.Gathering
import Depot.Proofs.Http.Idling
import Depot.Proofs.Http.Client
import Depot.Proofs.Http.Splitting
import Depot.Proofs.Http.Exchanges
import Depot.Proofs.Objects.Shelf
import Depot.Proofs.Store.Dialogue
import Depot.Proofs.Store.Interleaving
import Depot.Proofs.Store.Volatile
import Depot.Proofs.Store.Timed
import Depot.Proofs.Store.Tape
import Depot.Proofs.Route.Table
import Depot.Proofs.Route.Serving
import Depot.Proofs.Route.Timing
import Depot.Proofs.Route.Changes
import Depot.Proofs.Objects.Keeping
import Depot.Proofs.Objects.History
import Depot.Proofs.Objects.Errands
import Depot.Proofs.Token
import Depot.Proofs.Objects.Names
import Depot.Proofs.Objects.Burning
import Depot.Proofs.Address
import Depot.Proofs.Z85
import Depot.Proofs.Store.Locality
import Depot.Proofs.Traffic.Turns
import Depot.Proofs.Traffic.Windows
import Depot.Proofs.Traffic.Expiry
import Depot.Proofs.Traffic.Isolation
import Depot.Proofs.Traffic.Responses
import Depot.Proofs.Traffic.StoreLoss
import Depot.Proofs.Traffic.Admission
import Depot.Proofs.Resp.Reading
import Depot.Proofs.Resp.WireForm
import Depot.Proofs.Resp.Grammar
import Depot.Proofs.Resp.Positions
import Depot.Proofs.Resp.Streaming
import Depot.Proofs.Link.Moves
import Depot.Proofs.Link.Pairing
import Depot.Proofs.Resp.Commands
import Depot.Proofs.CommandLine
import Depot.Proofs.Setup
