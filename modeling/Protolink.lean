import Protolink.Main
import Protolink.Proofs.Yields
import Protolink.Schema.History
import Protolink.Script
import Protolink.Proofs.Declared
import Protolink.Proofs.Blueprint
import Protolink.Proofs.Linked
import Protolink.Proofs.Assembly
import Protolink.Proofs.Nodes
import Protolink.Proofs.Resolution
import Protolink.Proofs.Order
import Protolink.Proofs.Response
import Protolink.Proofs.Outcome
import Protolink.Proofs.Becoming
import Protolink.Proofs.Places
import Protolink.Proofs.Tables
import Protolink.Proofs.Interleaving
import Protolink.Proofs.Reading
import Protolink.Proofs.Respelling
import Protolink.Proofs.Qualification
import Protolink.Proofs.Drafting
import Protolink.Proofs.WriteOnce
import Protolink.Proofs.Journal
import Protolink.Proofs.Commands
import Protolink.Proofs.Aliases
import Protolink.Proofs.Unspelled
import Protolink.Proofs.Ownership
import Protolink.Proofs.Unrelated
import Protolink.Proofs.Outline
import Protolink.Proofs.Columns
import Protolink.Proofs.Unambiguous
import Protolink.Proofs.Extendees
import Protolink.Proofs.Probing
import Protolink.Proofs.Reordering
import Protolink.Proofs.Unfinished
import Protolink.Proofs.Sessions
import Protolink.Proofs.Confinement
import Protolink.Proofs.Tasks
import Protolink.Proofs.Stopping
import Protolink.Proofs.Relinking
import Protolink.Proofs.Routes
import Protolink.Proofs.Lineage
import Protolink.Proofs.Addresses
import Protolink.Proofs.Contracts
import Protolink.Proofs.Membership
import Protolink.Proofs.Specifiers
import Protolink.Proofs.Labels
import Protolink.Proofs.Rendering
import Protolink.Proofs.Template
import Protolink.Proofs.Failing
import Protolink.Proofs.Tallies
import Protolink.Proofs.Mentions
import Protolink.Proofs.OutputNames
import Protolink.Proofs.Wanted
import Protolink.Proofs.Mirroring
import Protolink.Proofs.Terse
import Protolink.Proofs.Skeleton
import Protolink.Proofs.Unread
import Protolink.Proofs.Settings
import Protolink.Proofs.CamelCase
import Protolink.Proofs.Escaping
import Protolink.Proofs.Packages
import Protolink.Proofs.Stems
