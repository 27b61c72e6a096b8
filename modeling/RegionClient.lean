import RegionClient.Http.Endpoint
import RegionClient.Json.Skip
import RegionClient.Proofs.Http.ApiRoot
import RegionClient.Proofs.Http.Authorization
import RegionClient.Proofs.Http.Multipart
import RegionClient.Proofs.Http.Parameters
import RegionClient.Proofs.Http.Secrecy
import RegionClient.Proofs.Request.Params
import RegionClient.Proofs.Resource.Acknowledgement
import RegionClient.Proofs.Resource.Arguments
import RegionClient.Proofs.Resource.Contract
import RegionClient.Proofs.Resource.DeviceAddress
import RegionClient.Proofs.Resource.FileTarget
import RegionClient.Proofs.Resource.Upload
import RegionClient.Proofs.Schema.Offence
import RegionClient.Proofs.Session.Accounting
import RegionClient.Proofs.Session.FinalReply
import RegionClient.Proofs.Session.Negotiation
import RegionClient.Proofs.Session.Refusal
import RegionClient.Proofs.Url.Containment
import RegionClient.Proofs.Url.Spelling
import RegionClient.Resource.Step
import RegionClient.Session.Negotiation
import RegionClient.Session.Scripted
import RegionClient.Text.Unprintable
import RegionClient.Proofs.Request.Credentials
import RegionClient.Proofs.Version.Spelling
import RegionClient.Proofs.Capabilities
import RegionClient.Proofs.Session.Capabilities
import RegionClient.Proofs.Resource.TrailingSlash
import RegionClient.Proofs.Session.Configuration
import RegionClient.Proofs.Json.Datum
import RegionClient.Proofs.Json.Record
import RegionClient.Proofs.RoundTrip
