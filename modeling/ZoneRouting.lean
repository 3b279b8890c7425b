import ZoneRouting.Mesh
import ZoneRouting.Datalink
import ZoneRouting.Node.Fleet
import ZoneRouting.Config.Folder
import ZoneRouting.Main
import ZoneRouting.Proofs.Wire.Canonical
import ZoneRouting.Proofs.Honest.Runs
import ZoneRouting.Proofs.StaticMesh.Outcome
import ZoneRouting.Proofs.FloodReach
import ZoneRouting.Proofs.Engine.Order
import ZoneRouting.Proofs.Engine.WellFormed
import ZoneRouting.Proofs.Honest.Circulation
import ZoneRouting.Proofs.Honest.Lineages
import ZoneRouting.Proofs.Honest.LearnedRoutes
import ZoneRouting.Proofs.Engine.RoutingState
import ZoneRouting.Proofs.Engine.RouteKeys
import ZoneRouting.Proofs.Engine.FirstKeys
import ZoneRouting.Proofs.Engine.RecordedKeys
import ZoneRouting.Proofs.Engine.Drops
import ZoneRouting.Proofs.Engine.Refusals
import ZoneRouting.Proofs.Routing.BorderNodes
import ZoneRouting.Proofs.Opening
import ZoneRouting.Proofs.Engine.Relaying
import ZoneRouting.Proofs.Engine.Searches
import ZoneRouting.Proofs.Engine.Bounds
import ZoneRouting.Proofs.Node.Loop
import ZoneRouting.Proofs.Datalink
import ZoneRouting.Proofs.Medium
import ZoneRouting.Proofs.Nesting
