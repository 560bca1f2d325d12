import Courier.Main
import Courier.Proofs.Section.Grammar
import Courier.Proofs.Text.Cut
import Courier.Proofs.Url.Layout
import Courier.Proofs.Url.Masking
import Courier.Upload.Basic
import Courier.Request.Schema
import Courier.Proofs.Url.Generic
import Courier.Proofs.Url.Assembly
import Courier.Proofs.Section.Printer
import Courier.Proofs.Text.Indent
import Courier.Proofs.Section.Pair
import Courier.Proofs.Request.Printer
import Courier.Proofs.Request.RoundTrip
import Courier.Proofs.Script.Edit
import Courier.Proofs.Script.Nesting
import Courier.Proofs.Script.Site
import Courier.Proofs.Script.Rendering
import Courier.Proofs.Script.Scope
import Courier.Proofs.Collection.Mirror
import Courier.Proofs.Collection.Validity
import Courier.Proofs.Job.Accounting
import Courier.Proofs.Script.Renaming
import Courier.Proofs.Environment.Secrecy
import Courier.Proofs.Request.Slots
import Courier.Proofs.Script.Occurrence
import Courier.Proofs.Job.Addresses
import Courier.Proofs.Collection.Independence
import Courier.Proofs.Job.Effects
import Courier.Proofs.Job.Agreement
import Courier.Proofs.Section.Retention
import Courier.Proofs.Request.Faults
import Courier.Proofs.Request.Scripts
import Courier.Proofs.Request.Selection
import Courier.Proofs.Script.Uses
import Courier.Proofs.Script.Boundary
import Courier.Proofs.Script.Notices
import Courier.Proofs.Script.Defects
import Courier.Proofs.Collection.Acceptance
import Courier.Proofs.Collection.Legible
import Courier.Proofs.Collection.Canonical
import Courier.Proofs.Collection.Trie
import Courier.Proofs.Text.Block
import Courier.Proofs.Collection.Urlencoded
import Courier.Proofs.Files.Finding
import Courier.Proofs.Url.Credentials
import Courier.Proofs.Environment.Conservation
import Courier.Proofs.Script.Faults
import Courier.Proofs.Settings.Loading
import Courier.Proofs.Url.Unmasking
import Courier.Proofs.Script.Hygiene
