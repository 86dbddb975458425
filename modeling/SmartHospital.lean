import SmartHospital.Message
import SmartHospital.Reply
import SmartHospital.Client
import SmartHospital.Workers
import SmartHospital.Request
import SmartHospital.Controller
import SmartHospital.Membership
import SmartHospital.RoundTrip
import SmartHospital.Sections
import SmartHospital.Admission
import SmartHospital.Atomicity
import SmartHospital.HandOff
import SmartHospital.Echo
import SmartHospital.Group
import SmartHospital.KeepAlive
import SmartHospital.Decoding
import SmartHospital.Answer
import SmartHospital.Leftover
import SmartHospital.Load
import SmartHospital.Period
import SmartHospital.Retention
import SmartHospital.Broker
import SmartHospital.Tokenizer
import SmartHospital.Datagram
import SmartHospital.Support.TopicFilter
import SmartHospital.Topic
import SmartHospital.Command
import SmartHospital.Isolation
import SmartHospital.Menu
import SmartHospital.Json.Token
import SmartHospital.Json.Value
import SmartHospital.Json.Decode
import SmartHospital.Json.Reader
import SmartHospital.Json.Spelling
import SmartHospital.Json.Scanning
import SmartHospital.Json.Strings
import SmartHospital.Json.Numbers
import SmartHospital.Json.Acceptance
import SmartHospital.Json.WellFormed
import SmartHospital.Configuration
import SmartHospital.Deployment
import SmartHospital.Joining
import SmartHospital.Thresholds
import SmartHospital.Ward
import SmartHospital.Publisher
import SmartHospital.Backoff
import SmartHospital.Json.Tokens
import SmartHospital.Json.Soundness
import SmartHospital.Grounds
import SmartHospital.History
import SmartHospital.Reception
