import TreeHandles.Proofs.Table.Issue
import TreeHandles.Proofs.Table.Finality
import TreeHandles.Proofs.Session.Construction
import TreeHandles.Proofs.Boundary.Atomicity
import TreeHandles.Proofs.Client.Reading
import TreeHandles.Proofs.Client.Building
import TreeHandles.Proofs.Session.Identity
import TreeHandles.Proofs.Origin.Identity
import TreeHandles.Proofs.Session.Accounting
import TreeHandles.Proofs.Session.Policy
import TreeHandles.Proofs.Session.Truth
import TreeHandles.Proofs.Node.Equality
import TreeHandles.Proofs.Json.Import
import TreeHandles.Proofs.Session.Interference
import TreeHandles.Proofs.Boundary.Slots
import TreeHandles.Proofs.Boundary.Whole
import TreeHandles.Proofs.Boundary.Crossing
import TreeHandles.Proofs.Client.Exporting
import TreeHandles.Proofs.Node.Enumeration
import TreeHandles.Proofs.Table.Demands
import TreeHandles.Proofs.Node.Shortcut
import TreeHandles.Proofs.Node.Exported
import TreeHandles.Proofs.Session.Order
import TreeHandles.Proofs.Session.Readings
import TreeHandles.Proofs.Json.Integers
import TreeHandles.Proofs.Json.Members
import TreeHandles.Proofs.Options.Overlay
import TreeHandles.Proofs.Json.Kinds
