import HaloMesh.Bytes
import HaloMesh.Codec.Basic
import HaloMesh.Codec.Error
import HaloMesh.Codec.Records
import HaloMesh.Codec.Text
import HaloMesh.Collective.AllToAll
import HaloMesh.Collective.Counts
import HaloMesh.Collective.Frame
import HaloMesh.Collective.OneToAll
import HaloMesh.Collective.Packer
import HaloMesh.Coloring.Basic
import HaloMesh.Coloring.Block
import HaloMesh.Coloring.Definition
import HaloMesh.Coloring.Grid
import HaloMesh.Coloring.IndexColoring
import HaloMesh.Comm.Group
import HaloMesh.Comm.Mailbox
import HaloMesh.Comm.Program
import HaloMesh.Comm.Transport
import HaloMesh.CopyPlan
import HaloMesh.CopyPlan.Refresh
import HaloMesh.CopyPlan.Verify
import HaloMesh.Error
import HaloMesh.Fault
import HaloMesh.Field.Info
import HaloMesh.Field.Key
import HaloMesh.Ghost.Direction
import HaloMesh.Ghost.Interval
import HaloMesh.Ghost.Run
import HaloMesh.LittleEndian
import HaloMesh.Logged
import HaloMesh.Loop
import HaloMesh.Mesh.Basic
import HaloMesh.Mesh.Factor
import HaloMesh.Partition
import HaloMesh.Privilege
import HaloMesh.Privilege.Pack
import HaloMesh.Region
import HaloMesh.Topology.Access
import HaloMesh.Topology.Basic
import HaloMesh.Topology.Construct
import HaloMesh.Topology.Domain
import HaloMesh.Violation
import HaloMesh.Word
import HaloMesh.Document
import HaloMesh.Document.Form
import HaloMesh.Document.Records
import HaloMesh.Hex
import HaloMesh.Proofs.Checked
import HaloMesh.Proofs.Grid
import HaloMesh.Proofs.Coloring.Block
import HaloMesh.Proofs.Coloring.Axis
import HaloMesh.Proofs.Coloring.Layout
import HaloMesh.Proofs.Coloring.Queries
import HaloMesh.Proofs.Coloring.Spec
import HaloMesh.Proofs.Coloring.Tiling
import HaloMesh.Proofs.Ghost.Rows
import HaloMesh.Proofs.Ghost.Direction
import HaloMesh.Proofs.Ghost.Slab
import HaloMesh.Proofs.Ghost.Intervals
import HaloMesh.Proofs.Ghost.Fills
import HaloMesh.Proofs.Ghost.Geometry
import HaloMesh.Proofs.CopyPlan.Table
import HaloMesh.Proofs.CopyPlan.Placement
import HaloMesh.Proofs.CopyPlan.Derive
import HaloMesh.Proofs.Comm.Effect
import HaloMesh.Proofs.Comm.Network
import HaloMesh.Proofs.Comm.Round
import HaloMesh.Proofs.Collective.Counts
import HaloMesh.Proofs.Comm.Yields
import HaloMesh.Proofs.Collective.AllToAll
import HaloMesh.Proofs.Codec.Laws
import HaloMesh.Proofs.Codec.Compound
import HaloMesh.Proofs.Codec.Delimited
import HaloMesh.Proofs.Codec.Records
import HaloMesh.Proofs.Collective.Values
import HaloMesh.Proofs.Collective.Offers
import HaloMesh.Proofs.Collective.OneToAll
import HaloMesh.Proofs.CopyPlan.Arrivals
import HaloMesh.Proofs.Collective.Sequence
import HaloMesh.Proofs.CopyPlan.Mirror
import HaloMesh.Proofs.CopyPlan.Verify
import HaloMesh.Proofs.Bytes
import HaloMesh.Proofs.Comm.Stateful
import HaloMesh.Proofs.CopyPlan.Transfer
import HaloMesh.Proofs.Ghost.Zones
import HaloMesh.Proofs.CopyPlan.Exchange
import HaloMesh.Proofs.Ghost.Owners
import HaloMesh.Proofs.Region
import HaloMesh.Proofs.CopyPlan.Refresh
import HaloMesh.Proofs.Topology.Binding
import HaloMesh.Proofs.Topology.Dissemination
import HaloMesh.Proofs.Topology.Construct
import HaloMesh.Proofs.CopyPlan.Coherence
import HaloMesh.Proofs.CopyPlan.Concert
import HaloMesh.Proofs.Topology.Coherence
import HaloMesh.Proofs.Collective.Shares
import HaloMesh.Proofs.Comm.Transport
import HaloMesh.Proofs.Collective.Traffic
import HaloMesh.Proofs.Coloring.Realizable
import HaloMesh.Proofs.Ghost.Runs
import HaloMesh.Proofs.Ghost.Balance
import HaloMesh.Proofs.Ghost.Derived
import HaloMesh.Proofs.CopyPlan.Sound
import HaloMesh.Proofs.CopyPlan.Verdict
import HaloMesh.Proofs.CopyPlan.Posting
import HaloMesh.Proofs.Comm.Trace
import HaloMesh.Proofs.CopyPlan.Agreement
import HaloMesh.Proofs.Coloring.Faults
import HaloMesh.Proofs.Mesh.Factor
import HaloMesh.Proofs.Mesh.Color
import HaloMesh.Proofs.Topology.Ranges
import HaloMesh.Proofs.Comm.Replies
import HaloMesh.Proofs.CopyPlan.Storage
import HaloMesh.Proofs.CopyPlan.Frame
import HaloMesh.Proofs.Topology.Flags
import HaloMesh.Proofs.Topology.Turns
import HaloMesh.Proofs.CopyPlan.Sizes
import HaloMesh.Proofs.Privilege.Pack
import HaloMesh.Proofs.Privilege.Concat
import HaloMesh.Proofs.Mesh.Incidence
import HaloMesh.Proofs.Comm.Courses
import HaloMesh.Proofs.Collective.Inbound
import HaloMesh.Proofs.Collective.Acceptance
import HaloMesh.Proofs.Comm.Outcomes
import HaloMesh.Proofs.Comm.Channel
import HaloMesh.Proofs.Collective.Reports
import HaloMesh.Proofs.Collective.Relay
import HaloMesh.Proofs.Topology.Colors
import HaloMesh.Proofs.Mesh.Density
import HaloMesh.Proofs.Mesh.Processes
import HaloMesh.Proofs.CopyPlan.Foreign
import HaloMesh.Proofs.Comm.Rejections
import HaloMesh.Proofs.Topology.Rejections
import HaloMesh.Proofs.Ghost.Canonical
import HaloMesh.Proofs.Comm.Attempts
import HaloMesh.Proofs.Field.Store
import HaloMesh.Proofs.Region.Accounts
