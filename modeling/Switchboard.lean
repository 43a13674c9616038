import Switchboard.Codec.Guarded
import Switchboard.Codec.Json
import Switchboard.Provider.Url
import Switchboard.Book
import Switchboard.Rotation
import Switchboard.Filter.Builtin
import Switchboard.Filter.Chain
import Switchboard.Toml.Document
import Switchboard.Registry.Settings
import Switchboard.Toml.Record
import Switchboard.Settings
import Switchboard.Settings.Document
import Switchboard.Registry.Store
import Switchboard.Timetable
import Switchboard.Registry
import Switchboard.Exchange.Table
import Switchboard.Hub.Offers
import Switchboard.Hub.References
import Switchboard.Json.Members
import Switchboard.Report
import Switchboard.Proofs.Book
import Switchboard.Proofs.Contents
import Switchboard.Proofs.Delivery
import Switchboard.Proofs.Replica
import Switchboard.Proofs.Warming
import Switchboard.Proofs.Addresses
import Switchboard.Proofs.Gate
import Switchboard.Proofs.Overrides
import Switchboard.Proofs.Grammar
import Switchboard.Proofs.Routes
import Switchboard.Proofs.Hardening
import Switchboard.Proofs.Guarded
import Switchboard.Proofs.Blame
import Switchboard.Proofs.Share
import Switchboard.Proofs.Catalog
import Switchboard.Proofs.Precedence
import Switchboard.Proofs.Assembly
import Switchboard.Proofs.Following
import Switchboard.Proofs.Distinct
import Switchboard.Proofs.Withheld
import Switchboard.Proofs.Erasure
import Switchboard.Proofs.Chronicle
import Switchboard.Proofs.Quiet
import Switchboard.Proofs.Undone
import Switchboard.Proofs.Subscriptions
import Switchboard.Proofs.Released
import Switchboard.Proofs.Attended
import Switchboard.Proofs.Stocked
import Switchboard.Proofs.Cycle
import Switchboard.Proofs.Leftover
import Switchboard.Proofs.Lingering
import Switchboard.Proofs.RoundTrip
import Switchboard.Proofs.Entry
import Switchboard.Proofs.Transparency
import Switchboard.Proofs.Departure
import Switchboard.Proofs.Sharing
import Switchboard.Proofs.Teardown
import Switchboard.Proofs.Composition
import Switchboard.Proofs.Prepared
import Switchboard.Proofs.Schemes
import Switchboard.Proofs.Healing
import Switchboard.Proofs.Notices
import Switchboard.Proofs.Rescans
